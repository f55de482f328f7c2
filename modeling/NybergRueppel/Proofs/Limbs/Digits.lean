import NybergRueppel.Proofs.Limbs.Bits

/-!
Digits of equal width, lowest first. Cutting a word into digits and joining digits to words and
limbs keep the number, as long as no digit is wider than its place.
-/
namespace NybergRueppel

namespace Word

theorem toNat_digit (w : UInt64) {width i : Nat} (hPlace : i * width < 64) (hWidth : width < 64) :
    ((w >>> (i * width).toUInt64) &&& ((1 <<< width.toUInt64) - 1)).toNat =
      w.toNat / (2 ^ width) ^ i % 2 ^ width := by
  have hPower : 2 ^ width < 2 ^ 64 := Nat.pow_lt_pow_right (by decide) hWidth
  have hOne : 1 ≤ 2 ^ width := Nat.one_le_two_pow
  have hShifted : ((1 : UInt64) <<< width.toUInt64).toNat = 2 ^ width := by
    rw [UInt64.toNat_shiftLeft, toNat_amount_mod hWidth, show (1 : UInt64).toNat = 1 from rfl,
      Nat.shiftLeft_eq, Nat.one_mul, Nat.mod_eq_of_lt hPower]
  have hMask : (((1 : UInt64) <<< width.toUInt64) - 1).toNat = 2 ^ width - 1 := by
    rw [UInt64.toNat_sub, hShifted, show (1 : UInt64).toNat = 1 from rfl]
    omega
  rw [UInt64.toNat_and, hMask, UInt64.toNat_shiftRight, toNat_amount_mod hPlace,
    Nat.and_two_pow_sub_one_eq_mod, Nat.shiftRight_eq_div_pow, ← pow_mul, Nat.mul_comm width]

section

variable {width count : Nat} (hWidth : width < 64) (hCount : count * width = 64)

include hWidth hCount

theorem map_toNat_toDigits (w : UInt64) :
    (toDigits width count w).map UInt64.toNat =
      (List.range count).map fun i => w.toNat / (2 ^ width) ^ i % 2 ^ width := by
  have hPos : 0 < width := by
    apply Nat.pos_of_ne_zero
    rintro rfl
    omega
  rw [toDigits, List.map_map]
  apply List.map_congr_left
  intro i hi
  have hPlace := Nat.mul_lt_mul_of_pos_right (List.mem_range.mp hi) hPos
  rw [hCount] at hPlace
  exact toNat_digit w hPlace hWidth

/-- Cutting a word into digits that cover it loses nothing. -/
theorem ofDigits_toDigits (w : UInt64) :
    Nat.ofDigits (2 ^ width) ((toDigits width count w).map UInt64.toNat) = w.toNat := by
  rw [map_toNat_toDigits hWidth hCount, Limbs.ofDigits_range_map, ← pow_mul, Nat.mul_comm width,
    hCount]
  exact Nat.mod_eq_of_lt w.toNat_lt

theorem lt_of_mem_toDigits {w digit : UInt64} (h : digit ∈ toDigits width count w) :
    digit.toNat < 2 ^ width := by
  have hMapped := List.mem_map_of_mem h (f := UInt64.toNat)
  rw [map_toNat_toDigits hWidth hCount, List.mem_map] at hMapped
  obtain ⟨i, -, hDigit⟩ := hMapped
  rw [← hDigit]
  exact Nat.mod_lt _ (Nat.two_pow_pos width)

end

theorem ofDigits_lt {b : Nat} (hb : 1 < b) {digits : List UInt64} (h : ∀ d ∈ digits, d.toNat < b) :
    Nat.ofDigits b (digits.map UInt64.toNat) < b ^ digits.length := by
  have hLess := Nat.ofDigits_lt_base_pow_length hb (List.forall_mem_map.mpr h)
  rwa [List.length_map] at hLess

/-- Joining digits that fit into a word is the number with these digits. -/
theorem toNat_ofDigits {width : UInt64} (hPos : 0 < width.toNat) (hWidth : width.toNat < 64)
    {digits : List UInt64} (hDigits : ∀ d ∈ digits, d.toNat < 2 ^ width.toNat)
    (hLength : digits.length * width.toNat ≤ 64) :
    (ofDigits width digits).toNat = Nat.ofDigits (2 ^ width.toNat) (digits.map UInt64.toNat) := by
  induction digits with
  | nil => rfl
  | cons d ds ih =>
      rw [List.forall_mem_cons] at hDigits
      rw [List.length_cons, Nat.succ_mul] at hLength
      have hRest := ih hDigits.2 (by omega)
      have hLess := ofDigits_lt (Nat.one_lt_two_pow hPos.ne') hDigits.2
      have hFits : 2 ^ width.toNat * Nat.ofDigits (2 ^ width.toNat) (ds.map UInt64.toNat) <
          2 ^ 64 := by
        calc
          _ < 2 ^ width.toNat * (2 ^ width.toNat) ^ ds.length :=
            Nat.mul_lt_mul_of_pos_left hLess (Nat.two_pow_pos _)
          _ = 2 ^ (ds.length * width.toNat + width.toNat) := by
            rw [← pow_mul, ← pow_add, Nat.mul_comm ds.length, Nat.add_comm]
          _ ≤ 2 ^ 64 := Nat.pow_le_pow_right (by decide) hLength
      have hStep : ofDigits width (d :: ds) = (ofDigits width ds <<< width) ||| d := rfl
      rw [hStep, UInt64.toNat_or, UInt64.toNat_shiftLeft, Nat.mod_eq_of_lt hWidth,
        Nat.shiftLeft_eq, hRest, Nat.mul_comm, Nat.mod_eq_of_lt hFits,
        ← Nat.two_pow_add_eq_or_of_lt hDigits.1, List.map_cons, Nat.ofDigits_cons, Nat.add_comm]

end Word

namespace Limbs

open Word

variable {width : UInt64} {count : Nat} (hPos : 0 < width.toNat) (hWidth : width.toNat < 64)
  (hCount : count * width.toNat = 64)

include hPos hWidth hCount in
/-- Joining digits into limbs is the number with these digits. -/
theorem toNat_ofDigits (digits : List UInt64) (hDigits : ∀ d ∈ digits, d.toNat < 2 ^ width.toNat) :
    toNat (ofDigits width count digits) =
      Nat.ofDigits (2 ^ width.toNat) (digits.map UInt64.toNat) := by
  induction digits using ofDigits.induct count with
  | case1 => rw [ofDigits, toNat_nil, List.map_nil, Nat.ofDigits_nil]
  | case2 d ds ih =>
      have hSplit : d :: ds = (d :: ds.take (count - 1)) ++ ds.drop (count - 1) := by
        rw [List.cons_append, List.take_append_drop]
      have hLow : ∀ e ∈ d :: ds.take (count - 1), e.toNat < 2 ^ width.toNat :=
        fun e he => hDigits e (hSplit ▸ List.mem_append_left _ he)
      have hHigh : ∀ e ∈ ds.drop (count - 1), e.toNat < 2 ^ width.toNat :=
        fun e he => hDigits e (hSplit ▸ List.mem_append_right _ he)
      have hCountPos : 1 ≤ count := by
        apply Nat.pos_of_ne_zero
        rintro rfl
        omega
      have hLowLength : (d :: ds.take (count - 1)).length ≤ count := by
        rw [List.length_cons, List.length_take]
        omega
      have hLowWidth := Nat.mul_le_mul_right width.toNat hLowLength
      rw [hCount] at hLowWidth
      rw [ofDigits, toNat_cons, Word.toNat_ofDigits hPos hWidth hLow hLowWidth, ih hHigh]
      conv_rhs => rw [hSplit, List.map_append, Nat.ofDigits_append]
      rw [Nat.add_right_inj]
      by_cases hEnd : ds.length ≤ count - 1
      · rw [List.drop_of_length_le hEnd, List.map_nil, Nat.ofDigits_nil, Nat.mul_zero, Nat.mul_zero]
      · have hFull : (d :: ds.take (count - 1)).length = count := by
          rw [List.length_cons, List.length_take]
          omega
        rw [List.length_map, hFull, ← pow_mul, Nat.mul_comm width.toNat, hCount, base_eq]

/-- A limb is started only for another digit. -/
theorem length_ofDigits (width : UInt64) (hCountPos : 1 ≤ count) (digits : List UInt64) :
    (ofDigits width count digits).length = (digits.length + (count - 1)) / count := by
  induction digits using ofDigits.induct count with
  | case1 =>
      rw [ofDigits, List.length_nil, Nat.zero_add, Nat.div_eq_of_lt (by omega)]
  | case2 d ds ih =>
      have hSum : (d :: ds).length + (count - 1) = ds.length + count := by
        rw [List.length_cons]
        omega
      rw [ofDigits, List.length_cons, ih, List.length_drop, hSum, Nat.add_div_right _ hCountPos,
        Nat.add_right_cancel_iff]
      by_cases hEnd : ds.length ≤ count - 1
      · rw [Nat.sub_eq_zero_of_le hEnd, Nat.zero_add, Nat.div_eq_of_lt (by omega),
          Nat.div_eq_of_lt (by omega)]
      · rw [Nat.sub_add_cancel (Nat.le_of_not_le hEnd)]

end Limbs

end NybergRueppel
