import NybergRueppel.Proofs.FixedNat.Value
import NybergRueppel.Proofs.Limbs.Places

/-!
Shifting. Down, a limb takes in the lowest bits of the limb above it, so that what is left of the
number is its quotient by a power of two. Up, it takes in the highest bits of the limb below it, and
the multiple of the number is what stays together with the bits that leave at the top.
-/
namespace NybergRueppel

namespace Word

/-- A word is cut below and above a place. -/
theorem base_eq_mul {s : Nat} (hs : s < 64) : base = 2 ^ s * 2 ^ (64 - s) := by
  rw [base_eq, ← pow_add, Nat.add_sub_of_le hs.le]

section

variable {s : Nat} (hPos : 0 < s) (hs : s < 64)

include hPos hs

/-- The bits that a shift leaves over come from the opposite shift by the rest of the word. -/
theorem toNat_rest_mod : (64 - s.toUInt64).toNat % 64 = 64 - s := by
  have hWord : s.toUInt64.toNat = s % 2 ^ 64 := rfl
  rw [UInt64.toNat_sub, show (64 : UInt64).toNat = 64 from rfl]
  omega

/-- The bits that stay in a word, with the bits that come down from the word above it. -/
theorem toNat_shiftPair (x y : UInt64) :
    ((x >>> s.toUInt64) ||| (y <<< (64 - s.toUInt64))).toNat =
      x.toNat / 2 ^ s + 2 ^ (64 - s) * (y.toNat % 2 ^ s) := by
  have hLow : x.toNat / 2 ^ s < 2 ^ (64 - s) :=
    Nat.div_lt_of_lt_mul (base_eq_mul hs ▸ toNat_lt_base x)
  rw [UInt64.toNat_or, UInt64.toNat_shiftRight, UInt64.toNat_shiftLeft, toNat_amount_mod hs,
    toNat_rest_mod hPos hs, Nat.shiftRight_eq_div_pow, Nat.shiftLeft_eq, ← base_eq, base_eq_mul hs,
    Nat.mul_mod_mul_right, Nat.mul_comm (y.toNat % 2 ^ s), Nat.or_comm,
    ← Nat.two_pow_add_eq_or_of_lt hLow, Nat.add_comm]

/-- The bits that leave a word when it goes up stand above those that stay, which take in a carry at
the free places. -/
theorem toNat_shiftUp (x : UInt64) {carry : UInt64} (hCarry : carry.toNat < 2 ^ s) :
    ((x <<< s.toUInt64) ||| carry).toNat + base * (x >>> (64 - s.toUInt64)).toNat =
      x.toNat * 2 ^ s + carry.toNat := by
  have hParts := Nat.div_add_mod x.toNat (2 ^ (64 - s))
  rw [UInt64.toNat_or, UInt64.toNat_shiftLeft, UInt64.toNat_shiftRight, toNat_amount_mod hs,
    toNat_rest_mod hPos hs, Nat.shiftRight_eq_div_pow, Nat.shiftLeft_eq, ← base_eq, base_eq_mul hs,
    Nat.mul_comm x.toNat, Nat.mul_mod_mul_left, ← Nat.two_pow_add_eq_or_of_lt hCarry]
  linear_combination 2 ^ s * hParts

/-- What leaves a word fits into the free places of the next. -/
theorem toNat_shiftOut_lt (x : UInt64) : (x >>> (64 - s.toUInt64)).toNat < 2 ^ s := by
  rw [UInt64.toNat_shiftRight, toNat_rest_mod hPos hs, Nat.shiftRight_eq_div_pow]
  apply Nat.div_lt_of_lt_mul
  rw [Nat.mul_comm, ← base_eq_mul hs]
  exact toNat_lt_base x

end

end Word

namespace Limbs

open Word

theorem toNat_drop (xs : List UInt64) (k : Nat) : toNat (xs.drop k) = toNat xs / base ^ k := by
  induction k generalizing xs with
  | zero => rw [List.drop_zero, pow_zero, Nat.div_one]
  | succ k ih =>
      cases xs with
      | nil => rw [List.drop_nil, toNat_nil, Nat.zero_div]
      | cons x xs =>
          rw [List.drop_succ_cons, ih, toNat_cons, pow_succ', ← Nat.div_div_eq_div_mul,
            Nat.add_mul_div_left _ _ base_pos, Nat.div_eq_of_lt (toNat_lt_base x), Nat.zero_add]

/-- Shifting down by less than a word is a division: the bits that leave a limb stay in the limb
below it. -/
theorem toNat_shiftDown {s : Nat} (hPos : 0 < s) (hs : s < 64) (xs : List UInt64) :
    toNat (shiftDown s.toUInt64 xs) = toNat xs / 2 ^ s := by
  induction xs with
  | nil => rw [shiftDown, toNat_nil, Nat.zero_div]
  | cons x xs ih =>
      have hBase := base_eq_mul hs
      have hHead : (xs.headD 0).toNat % 2 ^ s = toNat xs % 2 ^ s := by
        rw [toNat_headD, hBase, Nat.mod_mul_right_mod]
      have hRest := Nat.div_add_mod (toNat xs) (2 ^ s)
      rw [shiftDown, toNat_cons, ih, toNat_cons, toNat_shiftPair hPos hs, hHead, hBase,
        Nat.mul_assoc _ _ (toNat xs), Nat.add_mul_div_left _ _ (Nat.two_pow_pos s)]
      linear_combination 2 ^ (64 - s) * hRest

theorem length_shiftDown (s : UInt64) (xs : List UInt64) : (shiftDown s xs).length = xs.length := by
  induction xs with
  | nil => rfl
  | cons x xs ih => rw [shiftDown, List.length_cons, List.length_cons, ih]

/-- Each limb takes over bits from the limb above it. -/
theorem getElem_shiftDown (s : UInt64) {xs : List UInt64} {i : Nat}
    (hi : i < (shiftDown s xs).length) :
    (shiftDown s xs)[i] = (xs.getD i 0 >>> s) ||| (xs.getD (i + 1) 0 <<< (64 - s)) := by
  induction xs generalizing i with
  | nil => cases hi
  | cons x xs ih =>
      cases i with
      | zero => cases xs <;> rfl
      | succ i =>
          rw [List.getD_cons_succ, List.getD_cons_succ, ← ih (Nat.lt_of_succ_lt_succ hi)]
          rfl

/-- Shifting up by less than a word is a multiplication: what leaves a limb is taken in by the limb
above it, and what leaves the highest limb is returned. -/
theorem toNat_shiftUp {s : Nat} (hPos : 0 < s) (hs : s < 64) (xs : List UInt64) {carry : UInt64}
    (hCarry : carry.toNat < 2 ^ s) :
    toNat (shiftUp s.toUInt64 xs carry).1 +
        base ^ xs.length * (shiftUp s.toUInt64 xs carry).2.toNat =
      toNat xs * 2 ^ s + carry.toNat := by
  induction xs generalizing carry with
  | nil => simp [shiftUp]
  | cons x xs ih =>
      have hWord := Word.toNat_shiftUp hPos hs x hCarry
      have hRest := ih (toNat_shiftOut_lt hPos hs x)
      simp only [shiftUp, toNat_cons, List.length_cons, pow_succ]
      linear_combination hWord + base * hRest

end Limbs

namespace FixedNat

open Word

variable {n : Nat}

/-- The limbs that are put above whole words, and what leaves them at the top. -/
theorem toNat_shiftedLimbs (a : FixedNat n) (s : Nat) :
    Limbs.toNat (if s % 64 = 0 then (a.limbs, 0)
        else Limbs.shiftUp (s % 64).toUInt64 a.limbs 0).1 +
        base ^ n * (a.shiftLeft s).2.toNat = a.toNat * 2 ^ (s % 64) := by
  rw [shiftLeft]
  split <;> rename_i hWords
  · rw [hWords, pow_zero, Nat.mul_one]
    rfl
  · have hCarry : (0 : UInt64).toNat < 2 ^ (s % 64) := Nat.two_pow_pos _
    have hMultiple := Limbs.toNat_shiftUp (Nat.pos_of_ne_zero hWords) (Nat.mod_lt s (by decide))
      a.limbs hCarry
    rwa [a.length_limbs] at hMultiple

/-- The multiple by a power of two, as far as it fits into the width. -/
theorem toNat_shiftLeft (a : FixedNat n) (s : Nat) :
    (a.shiftLeft s).1.toNat = a.toNat * 2 ^ s % base ^ n := by
  have hPower : 2 ^ s = 2 ^ (s % 64) * base ^ (s / 64) := by
    rw [base_eq, ← pow_mul, ← pow_add, Nat.mod_add_div]
  have hShifted := a.toNat_shiftedLimbs s
  have hLimbs : (a.shiftLeft s).1 = ofLimbs n (List.replicate (min n (s / 64)) 0 ++
      (if s % 64 = 0 then (a.limbs, 0) else Limbs.shiftUp (s % 64).toUInt64 a.limbs 0).1) := rfl
  generalize (if s % 64 = 0 then (a.limbs, 0)
    else Limbs.shiftUp (s % 64).toUInt64 a.limbs 0).1 = shifted at hShifted hLimbs
  rw [hLimbs, toNat_ofLimbs, Limbs.toNat_append, Limbs.toNat_replicate_zero, Nat.zero_add,
    List.length_replicate, hPower, ← Nat.mul_assoc, ← hShifted, Nat.add_mul,
    Nat.mul_assoc (base ^ n),
    Nat.add_mul_mod_self_left, Nat.mul_comm (Limbs.toNat shifted)]
  -- A shift by the whole width and more leaves nothing.
  rcases Nat.le_total (s / 64) n with hWithin | hWide
  · rw [Nat.min_eq_right hWithin]
  · obtain ⟨d, hd⟩ := Nat.exists_eq_add_of_le hWide
    rw [Nat.min_eq_left hWide, hd, pow_add, Nat.mul_assoc, Nat.mul_mod_right, Nat.mul_mod_right]

end FixedNat

theorem FixedNat.toNat_shiftRight {n : Nat} (a : FixedNat n) (s : Nat) :
    (a.shiftRight s).toNat = a.toNat / 2 ^ s := by
  have hPower : 2 ^ s = Word.base ^ (s / 64) * 2 ^ (s % 64) := by
    rw [Word.base_eq, ← pow_mul, ← pow_add, Nat.div_add_mod]
  have hShifted : Limbs.toNat (if s % 64 = 0 then a.limbs.drop (s / 64)
      else Limbs.shiftDown (s % 64).toUInt64 (a.limbs.drop (s / 64))) = a.toNat / 2 ^ s := by
    rw [hPower, ← Nat.div_div_eq_div_mul, toNat, ← Limbs.toNat_drop]
    split <;> rename_i hWords
    · rw [hWords, pow_zero, Nat.div_one]
    · exact Limbs.toNat_shiftDown (Nat.pos_of_ne_zero hWords) (Nat.mod_lt s (by decide)) _
  rw [shiftRight, toNat_ofLimbs]
  exact (congrArg (· % Word.base ^ n) hShifted).trans
    (Nat.mod_eq_of_lt ((Nat.div_le_self _ _).trans_lt a.toNat_lt))

end NybergRueppel
