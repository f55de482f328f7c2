import NybergRueppel.Proofs.Montgomery.Form

/-!
The accumulators of the Montgomery product. The sums of a row are formed here with unbounded
numbers. Every one of them fits into a double word, the machine keeps the low word of each and hands
on the high one, and the word above the running sum never holds more than one bit; the product that
comes out is the only number below the modulus that solves its congruence.
-/
namespace NybergRueppel

open Word

/-- The sums that a row forms one after the other. Each takes in a digit of the running sum, the
product of the word with a digit of the other factor and what the sum before it has above its low
word; the last one adds what is left to the word on top. -/
def Limbs.rowSums (word top : UInt64) : List UInt64 → List UInt64 → Nat → List Nat
  | t :: ts, a :: as, carry =>
    let sum := t.toNat + a.toNat * word.toNat + carry
    sum :: rowSums word top ts as (sum / base)
  | _, _, carry => [top.toNat + carry]

/-- The words are the low words of the sums, none of which is too large for a double word, and the
bit is what the last sum has above its low word. -/
structure IsExactRow (sums : List Nat) (words : List UInt64) (spill : Bool) : Prop where
  sum_lt : ∀ sum ∈ sums, sum < 2 ^ 128
  map_toNat_eq : words.map UInt64.toNat = sums.map (· % 2 ^ 64)
  spill_eq : ∃ last, sums.getLast? = some last ∧ spill.toNat = last / 2 ^ 64

/-- A number that a double word holds is split between its two words. -/
theorem Word.Double.split {d : Double} {sum : Nat} (h : d.toNat = sum) :
    sum < 2 ^ 128 ∧ d.low.toNat = sum % base ∧ d.high.toNat = sum / base := by
  have hLow := d.low.toNat_lt
  have hHigh := d.high.toNat_lt
  rw [Double.toNat, base_eq] at h
  rw [base_eq]
  omega

/-- The word on top and the carry of a row make one word and one bit. -/
theorem isExactRow_top (top carry : UInt64) :
    IsExactRow [top.toNat + carry.toNat] [(addCarry top carry false).1]
      (addCarry top carry false).2 := by
  have hTop := toNat_addCarry top carry false
  have hLow := (addCarry top carry false).1.toNat_lt
  have hLess := top.toNat_lt
  have hCarry := carry.toNat_lt
  rw [Bool.toNat_false, Nat.add_zero, base_eq] at hTop
  constructor
  · intro sum hSum
    rw [List.mem_singleton] at hSum
    omega
  · rw [List.map_singleton, List.map_singleton]
    congr 1
    omega
  · exact ⟨top.toNat + carry.toNat, rfl, by omega⟩

theorem Limbs.rowSums_ne_nil (word top : UInt64) (ts as : List UInt64) (carry : Nat) :
    rowSums word top ts as carry ≠ [] := by
  cases ts with
  | nil => simp [rowSums]
  | cons t ts => cases as <;> simp [rowSums]

/-- A row of machine words is exact: what a sum has above its low word is a word again, so that the
next sum fits as well. -/
theorem Limbs.isExactRow_mulAdd (word top : UInt64) {ts as : List UInt64}
    (hLength : ts.length = as.length) (carry : UInt64) :
    IsExactRow (rowSums word top ts as carry.toNat)
      ((mulAdd word ts as carry).1 ++ [(Word.addCarry top (mulAdd word ts as carry).2 false).1])
      (Word.addCarry top (mulAdd word ts as carry).2 false).2 := by
  induction ts generalizing as carry with
  | nil =>
      rw [List.eq_nil_of_length_eq_zero hLength.symm]
      exact isExactRow_top top carry
  | cons t ts ih =>
      cases as with
      | nil => simp at hLength
      | cons a as =>
          obtain ⟨hLess, hLow, hHigh⟩ := Double.split (Word.toNat_mulAdd t a word carry)
          have hRest := ih (Nat.succ.inj hLength) (Word.mulAdd t a word carry).high
          rw [hHigh] at hRest
          simp only [rowSums, mulAdd, List.cons_append]
          refine ⟨List.forall_mem_cons.mpr ⟨hLess, hRest.sum_lt⟩, ?_, ?_⟩
          · rw [List.map_cons, List.map_cons, hRest.map_toNat_eq, hLow, base_eq]
          · rw [List.getLast?_cons_of_ne_nil (rowSums_ne_nil word top ts as _)]
            exact hRest.spill_eq

namespace MontgomerySum

/-- The sums of the row that takes in a word of the second factor. -/
def productSums (a : List UInt64) (sum : MontgomerySum) (word : UInt64) : List Nat :=
  Limbs.rowSums word sum.top sum.words a 0

/-- The sums of the row that clears the lowest word. -/
def reductionSums (modulus : List UInt64) (negInv : UInt64) (sum : MontgomerySum) : List Nat :=
  Limbs.rowSums (sum.words.headD 0 * negInv) sum.top sum.words modulus 0

/-- One step is exact: both rows are, the second one clears its lowest word, and the new word on top
is the sum of the bits that leave the two rows, of which at most one is set. -/
structure IsExactStep (modulus : List UInt64) (negInv : UInt64) (a : List UInt64)
    (sum : MontgomerySum) (word : UInt64) : Prop where
  productRow :
    IsExactRow (sum.productSums a word)
      ((sum.addRow a word).1.words ++ [(sum.addRow a word).1.top]) (sum.addRow a word).2
  reductionRow : ∃ spill,
    IsExactRow ((sum.addRow a word).1.reductionSums modulus negInv)
      (0 :: (step modulus negInv a sum word).words) spill ∧
    (step modulus negInv a sum word).top.toNat = (sum.addRow a word).2.toNat + spill.toNat
  top_le : (step modulus negInv a sum word).top.toNat ≤ 1

theorem isExactRow_addRow {a : List UInt64} {sum : MontgomerySum} (word : UInt64)
    (hLength : sum.words.length = a.length) :
    IsExactRow (sum.productSums a word)
      ((sum.addRow a word).1.words ++ [(sum.addRow a word).1.top]) (sum.addRow a word).2 :=
  Limbs.isExactRow_mulAdd word sum.top hLength 0

theorem isExactRow_reduceRow {m negInv : UInt64} {ms ws : List UInt64} (w top : UInt64)
    (spill : Bool) (hInverse : m * negInv = -1) (hLength : ws.length = ms.length) :
    ∃ spill', IsExactRow (reductionSums (m :: ms) negInv { words := w :: ws, top := top })
        (0 :: (reduceRow (m :: ms) negInv { words := w :: ws, top := top } spill).words) spill' ∧
      (reduceRow (m :: ms) negInv { words := w :: ws, top := top } spill).top.toNat =
        spill.toNat + spill'.toNat := by
  obtain ⟨rest, carry, hRow, -, -⟩ := exists_mulAdd_eq_zero_cons w hInverse hLength
  have hFullLength : (w :: ws).length = (m :: ms).length := by simpa using hLength
  have hExact := Limbs.isExactRow_mulAdd (w * negInv) top hFullLength 0
  rw [hRow] at hExact
  refine ⟨(Word.addCarry top carry false).2, ?_, ?_⟩
  · simp only [reduceRow, List.headD_cons, hRow, List.tail_cons]
    exact hExact
  · simp only [reduceRow, List.headD_cons, hRow, toNat_ofBool_add]

theorem top_le_one {modulus : List UInt64} {sum : MontgomerySum}
    (hLength : sum.words.length = modulus.length) (hSum : sum.toNat < 2 * Limbs.toNat modulus) :
    sum.top.toNat ≤ 1 := by
  rw [toNat, hLength] at hSum
  exact top_bound (Limbs.toNat_lt modulus) hSum

theorem isExactStep {modulus a : List UInt64} {negInv : UInt64} {sum : MontgomerySum}
    (word : UInt64) (hInverse : modulus.headD 0 * negInv = -1)
    (ha : Limbs.toNat a < Limbs.toNat modulus) (haLength : a.length = modulus.length)
    (hLength : sum.words.length = modulus.length) (hSum : sum.toNat < 2 * Limbs.toNat modulus) :
    IsExactStep modulus negInv a sum word := by
  obtain ⟨-, hNextLength, hNextSum⟩ := toNat_step word hInverse ha haLength hLength hSum
  refine ⟨isExactRow_addRow word (hLength.trans haLength.symm), ?_,
    top_le_one hNextLength hNextSum⟩
  cases modulus with
  | nil => simp at ha
  | cons m ms =>
      obtain ⟨w, ws, top, spill, hRow, hWords⟩ := exists_addRow_eq_cons word haLength hLength
      rw [step, hRow]
      exact isExactRow_reduceRow w top spill hInverse hWords

end MontgomerySum

namespace Montgomery

variable {n : Nat}

/-- The running sum of the product of `a` and `b` after the lowest `count` words of `b`. -/
def partialSum (ctx : Montgomery n) (a b : FixedNat n) (count : Nat) : MontgomerySum :=
  (b.limbs.take count).foldl (MontgomerySum.step ctx.modulus.limbs ctx.negInv a.limbs)
    { words := (0 : FixedNat n).limbs, top := 0 }

variable (ctx : Montgomery n)

theorem partialSum_succ (a b : FixedNat n) {count : Nat} (hCount : count < n) :
    ctx.partialSum a b (count + 1) =
      MontgomerySum.step ctx.modulus.limbs ctx.negInv a.limbs (ctx.partialSum a b count)
        (b.limbs.getD count 0) := by
  have hWord : count < b.limbs.length := by rwa [b.length_limbs]
  rw [partialSum, List.take_succ_eq_append_getElem hWord, List.foldl_concat, partialSum,
    List.getD_eq_getElem?_getD, List.getElem?_eq_getElem hWord, Option.getD_some]

/-- The product is read off the running sum that has taken in every word. -/
theorem mul_eq_partialSum (a b : FixedNat n) :
    ctx.mul a b =
      let sum := ctx.partialSum a b n
      let value := FixedNat.ofLimbs n sum.words
      if sum.top != 0 || !decide (value < ctx.modulus) then value - ctx.modulus else value := by
  rw [partialSum, List.take_of_length_le b.length_limbs.le]
  rfl

/-- The running sum stays below twice the modulus, and has as many words as the modulus. -/
theorem partialSum_lt {a : FixedNat n} (ha : a.toNat < ctx.modulus.toNat) (b : FixedNat n)
    (count : Nat) :
    (ctx.partialSum a b count).words.length = ctx.modulus.limbs.length ∧
      (ctx.partialSum a b count).toNat < 2 * ctx.modulus.toNat := by
  have hModulus := ctx.three_le_modulus
  have hLength : (0 : FixedNat n).limbs.length = ctx.modulus.limbs.length :=
    (0 : FixedNat n).length_limbs.trans ctx.modulus.length_limbs.symm
  have hStartSum : MontgomerySum.toNat { words := (0 : FixedNat n).limbs, top := 0 } <
      2 * ctx.modulus.toNat := by
    rw [MontgomerySum.toNat_zero]
    omega
  exact (MontgomerySum.toNat_foldl_step (b.limbs.take count) ctx.headD_mul_negInv ha
    (a.length_limbs.trans ctx.modulus.length_limbs.symm) hLength hStartSum).2

/-- Every step of the product is exact, whichever word it takes in. -/
theorem isExactStep_partialSum {a : FixedNat n} (ha : a.toNat < ctx.modulus.toNat)
    (b : FixedNat n) (count : Nat) (word : UInt64) :
    MontgomerySum.IsExactStep ctx.modulus.limbs ctx.negInv a.limbs (ctx.partialSum a b count)
      word := by
  obtain ⟨hLength, hSum⟩ := ctx.partialSum_lt ha b count
  exact MontgomerySum.isExactStep word ctx.headD_mul_negInv ha
    (a.length_limbs.trans ctx.modulus.length_limbs.symm) hLength hSum

/-- The radix is a unit modulo an odd number, so that the congruence of the product has one solution
below the modulus. -/
theorem eq_mul_of_modEq {a : FixedNat n} (ha : a.toNat < ctx.modulus.toNat) (b : FixedNat n)
    {r : Nat} (hr : r < ctx.modulus.toNat)
    (h : r * base ^ n ≡ a.toNat * b.toNat [MOD ctx.modulus.toNat]) : r = (ctx.mul a b).toNat := by
  obtain ⟨hLess, hProduct⟩ := toNat_montgomeryProduct b ctx.headD_mul_negInv ha
  rw [Nat.mul_comm] at h
  have hUnit : ctx.modulus.toNat.gcd (base ^ n) = 1 := ctx.coprime_radix.symm
  exact Nat.ModEq.eq_of_lt_of_lt
    (Nat.ModEq.cancel_left_of_coprime hUnit (h.trans hProduct.symm)) hr hLess

/-- The product exists exactly for the odd moduli from three on. For factors below the modulus it is
the only number below the modulus whose multiple by `2 ^ (64 * n)` is congruent to the product of
the factors. It is reached without an overflow: the running sum is always below twice the modulus,
and no accumulator and no carry of a step loses anything. -/
theorem mul_exact (m : FixedNat n) :
    ((ofModulus? m).isSome = true ↔ m.toNat % 2 = 1 ∧ 3 ≤ m.toNat) ∧
      ∀ ctx, ofModulus? m = some ctx →
        ∀ a b : FixedNat n, a.toNat < m.toNat → b.toNat < m.toNat →
          (∀ r : Nat, r < m.toNat ∧ r * 2 ^ (64 * n) ≡ a.toNat * b.toNat [MOD m.toNat] ↔
            r = (ctx.mul a b).toNat) ∧
          (∀ count, (ctx.partialSum a b count).toNat < 2 * m.toNat) ∧
          ∀ count < n,
            MontgomerySum.IsExactStep m.limbs ctx.negInv a.limbs (ctx.partialSum a b count)
              (b.limbs.getD count 0) := by
  refine ⟨isSome_ofModulus?_iff m, ?_⟩
  intro ctx hContext a b ha _
  obtain rfl := ofModulus?_eq_some hContext
  refine ⟨fun r => ⟨?_, ?_⟩, fun count => (ctx.partialSum_lt ha b count).2,
    fun count _ => ctx.isExactStep_partialSum ha b count _⟩
  · rintro ⟨hr, h⟩
    rw [pow_mul] at h
    exact ctx.eq_mul_of_modEq ha b hr h
  · rintro rfl
    obtain ⟨hLess, hProduct⟩ := toNat_montgomeryProduct b ctx.headD_mul_negInv ha
    rw [pow_mul, Nat.mul_comm]
    exact ⟨hLess, hProduct⟩

/-- Every bit of the modulus is set, and the factors are as large as they can be. The product is
one, since the radix and the square of minus one both are. -/
theorem mul_exact_at_full_words :
    let m : FixedNat 2 := ⟨[-1, -1], rfl⟩
    let a : FixedNat 2 := ⟨[-2, -1], rfl⟩
    ∃ ctx, ofModulus? m = some ctx ∧ (ctx.mul a a).toNat = 1 ∧
      ∀ count < 2, MontgomerySum.IsExactStep m.limbs ctx.negInv a.limbs (ctx.partialSum a a count)
        (a.limbs.getD count 0) := by
  intro m a
  obtain ⟨ctx, hContext⟩ := Option.isSome_iff_exists.mp
    ((mul_exact m).1.mpr ⟨by decide, by decide⟩)
  obtain ⟨hUnique, -, hSteps⟩ :=
    (mul_exact m).2 ctx hContext a a (by decide) (by decide)
  exact ⟨ctx, hContext, ((hUnique 1).mp ⟨by decide, by decide⟩).symm, hSteps⟩

end Montgomery

end NybergRueppel
