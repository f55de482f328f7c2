import NybergRueppel.Proofs.BufferedInt.Normal
import NybergRueppel.Proofs.FixedNat.Bytes

/-!
Shortest encodings. The bytes of a number without the zeros in front are the fewest that stand for
it, at least one of them, and no other bytes are as few; so the encoding that is written for a
number depends on the magnitude alone, however many zeros the bytes began with that it was read
from.
-/
namespace NybergRueppel

/-- The bytes stand for the number, and no other bytes that do are fewer. -/
structure IsShortestEncoding (bytes : List UInt8) (value : Nat) : Prop where
  ne_nil : bytes ≠ []
  bigEndian_eq : bigEndian bytes = value
  length_le : ∀ other, other ≠ [] → bigEndian other = value → bytes.length ≤ other.length

/-- A number has only one shortest encoding. -/
theorem IsShortestEncoding.eq {xs ys : List UInt8} {value : Nat}
    (hx : IsShortestEncoding xs value) (hy : IsShortestEncoding ys value) : xs = ys := by
  apply eq_of_bigEndian_eq
  · exact Nat.le_antisymm (hx.length_le ys hy.ne_nil hy.bigEndian_eq)
      (hy.length_le xs hx.ne_nil hx.bigEndian_eq)
  · exact hx.bigEndian_eq.trans hy.bigEndian_eq.symm

/-- The bytes from the first that is not zero on, or one zero byte if all of them are zero. -/
def withoutLeadingZeros (bytes : List UInt8) : List UInt8 :=
  match bytes.dropWhile (· == 0) with
  | [] => [0]
  | rest => rest

theorem bigEndian_dropWhile (bytes : List UInt8) :
    bigEndian (bytes.dropWhile (· == 0)) = bigEndian bytes := by
  induction bytes with
  | nil => rfl
  | cons b bytes ih =>
      by_cases hb : b = 0
      · subst hb
        rw [List.dropWhile_cons_of_pos (by decide), ih, bigEndian_cons,
          show (0 : UInt8).toNat = 0 from rfl, Nat.mul_zero, Nat.add_zero]
      · rw [List.dropWhile_cons_of_neg (by simpa using hb)]

/-- Bytes that do not begin with zero are as few as their number allows. -/
theorem isShortestEncoding_cons {b : UInt8} (hb : b ≠ 0) (bytes : List UInt8) :
    IsShortestEncoding (b :: bytes) (bigEndian (b :: bytes)) := by
  refine ⟨List.cons_ne_nil b bytes, rfl, fun other _ hOther => ?_⟩
  have hPos : 1 ≤ b.toNat := Nat.one_le_iff_ne_zero.mpr fun h => hb (UInt8.toNat_inj.mp h)
  have hPlace : 256 ^ bytes.length < 256 ^ other.length :=
    calc
      256 ^ bytes.length ≤ 256 ^ bytes.length * b.toNat := Nat.le_mul_of_pos_right _ hPos
      _ ≤ bigEndian (b :: bytes) := by
        rw [bigEndian_cons]
        exact Nat.le_add_left _ _
      _ = bigEndian other := hOther.symm
      _ < 256 ^ other.length := bigEndian_lt other
  exact (Nat.pow_lt_pow_iff_right (by decide)).mp hPlace

theorem isShortestEncoding_withoutLeadingZeros (bytes : List UInt8) :
    IsShortestEncoding (withoutLeadingZeros bytes) (bigEndian bytes) := by
  have hFirst := List.head?_dropWhile_not (· == 0) bytes
  rw [withoutLeadingZeros, ← bigEndian_dropWhile]
  cases hRest : bytes.dropWhile (· == 0) with
  | nil => exact ⟨List.cons_ne_nil 0 [], rfl, fun other hOther _ => List.length_pos_iff.mpr hOther⟩
  | cons b rest =>
      rw [hRest] at hFirst
      exact isShortestEncoding_cons (by simpa using hFirst) rest

namespace BufferedInt

theorem toBytes_eq (a : BufferedInt) : a.toBytes = withoutLeadingZeros (Limbs.toBytes a.limbs) :=
  rfl

/-- What is written for a number is the shortest encoding of its magnitude. -/
theorem isShortestEncoding_toBytes (a : BufferedInt) :
    IsShortestEncoding a.toBytes a.magnitude := by
  have hShortest := isShortestEncoding_withoutLeadingZeros (Limbs.toBytes a.limbs)
  rwa [Limbs.bigEndian_toBytes] at hShortest

theorem isNormal_ofBytes (bytes : List UInt8) : (ofBytes bytes).IsNormal :=
  isNormal_ofSignedLimbs .plus (Limbs.ofBytes bytes)

theorem magnitude_ofBytes (bytes : List UInt8) : (ofBytes bytes).magnitude = bigEndian bytes := by
  rw [ofBytes, magnitude_ofLimbs, Limbs.toNat_ofBytes]

theorem toInt_ofBytes (bytes : List UInt8) : (ofBytes bytes).toInt = bigEndian bytes := by
  rw [ofBytes, toInt_ofLimbs, Limbs.toNat_ofBytes]

/-- A room that is not filled is counted as a whole word. -/
theorem room_ofBytes (bytes : List UInt8) :
    (ofBytes bytes).room = max 1 ((bytes.length + 7) / 8) := by
  rw [ofBytes, ofLimbs, room_ofSignedLimbs, Limbs.ofBytes, Limbs.length_ofDigits 8 (by decide),
    List.length_map, List.length_reverse]

theorem toInt_ofBytes_toBytes (a : BufferedInt) : (ofBytes a.toBytes).toInt = a.toInt.natAbs := by
  rw [toInt_ofBytes, a.isShortestEncoding_toBytes.bigEndian_eq, natAbs_toInt]

/-- Bytes that are read and written again lose the zeros in front. -/
theorem toBytes_ofBytes (bytes : List UInt8) :
    (ofBytes bytes).toBytes = withoutLeadingZeros bytes := by
  have hWritten := (ofBytes bytes).isShortestEncoding_toBytes
  rw [magnitude_ofBytes] at hWritten
  exact hWritten.eq (isShortestEncoding_withoutLeadingZeros bytes)

end BufferedInt

end NybergRueppel
