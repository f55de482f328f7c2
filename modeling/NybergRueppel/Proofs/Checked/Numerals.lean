import NybergRueppel.Proofs.Checked.Written

/-!
Numerals on the checking machine. The printers write the highest limb that is not zero without
leading zeros and every limb below it in full; the texts that are shown are made from these. Readers
and printers are stated here against the grammar of numerals, for texts of any characters and for
numbers of any length.
-/
namespace NybergRueppel

open Checked Hexadecimal Word

namespace Hexadecimal

theorem toLower_digit {v : UInt64} (hv : v.toNat < 16) :
    (digit .upper v).toLower = digit .lower v := by
  have hAll : ∀ k < 16,
      (digit .upper (UInt64.ofNat k)).toLower = digit .lower (UInt64.ofNat k) := by
    decide
  have hValue := hAll v.toNat hv
  rwa [UInt64.ofNat_toNat] at hValue

theorem map_toLower_fullWord (w : UInt64) :
    (fullWord .upper w).map Char.toLower = fullWord .lower w := by
  rw [fullWord, List.map_reverse, List.map_map, fullWord]
  congr 1
  apply List.map_congr_left
  intro v hv
  exact toLower_digit (Word.lt_of_mem_toDigits (by decide) rfl hv)

/-- Only zero has the lower-case form of zero. -/
theorem toLower_beq_zero (c : Char) : (c.toLower == '0') = (c == '0') := by
  rw [Bool.eq_iff_iff, beq_iff_eq, beq_iff_eq]
  by_cases hLetter : c.val ≥ 'A'.val ∧ c.val ≤ 'Z'.val
  · have hLow : 65 ≤ c.val.toNat := hLetter.1
    have hHigh : c.val.toNat ≤ 90 := hLetter.2
    have hLower : c.toLower.val = c.val + 32 := congrArg Char.val (dif_pos hLetter)
    simp only [Char.ext_iff, hLower, ← UInt32.toNat_inj, UInt32.toNat_add]
    show (c.val.toNat + 32) % 2 ^ 32 = 48 ↔ c.val.toNat = 48
    omega
  · have hSame : c.toLower = c := dif_neg hLetter
    rw [hSame]

theorem map_toLower_word (w : UInt64) : (word .upper w).map Char.toLower = word .lower w := by
  have hDropped : (fullWord .lower w).dropWhile (· == '0') =
      ((fullWord .upper w).dropWhile (· == '0')).map Char.toLower := by
    rw [← map_toLower_fullWord, List.dropWhile_map]
    congr 2
    exact funext toLower_beq_zero
  rw [word, word, hDropped]
  cases (fullWord .upper w).dropWhile (· == '0') with
  | nil => rfl
  | cons c cs => rfl

theorem map_toLower_limbs (xs : List UInt64) :
    (limbs .upper xs).map Char.toLower = limbs .lower xs := by
  rw [limbs, limbs]
  induction xs.reverse with
  | nil => rfl
  | cons x xs ih =>
      rw [descending, descending]
      split
      · exact ih
      · rw [List.map_append, map_toLower_word, List.map_flatMap]
        congr 2
        exact funext map_toLower_fullWord

end Hexadecimal

namespace FixedNat

variable {n : Nat}

theorem mapM_read_range {α : Type} {xs : List α} {count : Nat} (hCount : count ≤ xs.length) :
    (List.range count).reverse.mapM (read xs) = .ok (xs.take count).reverse := by
  induction count with
  | zero => rfl
  | succ i ih =>
      have hi : i < xs.length := hCount
      rw [List.range_succ, List.reverse_append, List.reverse_singleton, List.singleton_append,
        List.mapM_cons, read_eq_ok hi, ok_bind, ih hi.le, ok_bind,
        List.take_succ_eq_append_getElem hi, List.reverse_append]
      rfl

/-- The place of the highest limb that is not zero, of the lowest `count` limbs. -/
def checkedHighest (a : FixedNat n) : Nat → Checked (Option Nat)
  | 0 => return none
  | i + 1 => do if (← read a.limbs i) ≠ 0 then return some i else checkedHighest a i

/-- The upper-case digits: those of the highest limb that is not zero without leading zeros, and all
of those of the limbs below it. -/
def checkedToHex (a : FixedNat n) : Checked String := do
  match ← a.checkedHighest n with
  | none => return "0"
  | some start =>
    let top ← read a.limbs start
    let below ← (List.range start).reverse.mapM (read a.limbs)
    return String.ofList (word .upper top ++ below.flatMap (fullWord .upper))

/-- The lower-case form of the digits, behind the mark. -/
def checkedDisplayText (a : FixedNat n) : Checked String := do
  let hex ← a.checkedToHex
  return String.ofList ('0' :: 'x' :: hex.toList.map Char.toLower)

theorem exists_checkedHighest_eq (a : FixedNat n) {count : Nat} (hCount : count ≤ n) :
    ∃ highest, a.checkedHighest count = .ok highest ∧
      (highest = none → descending .upper (a.limbs.take count).reverse = ['0']) ∧
      ∀ start, highest = some start → start < n ∧
        descending .upper (a.limbs.take count).reverse =
          word .upper (a.limbs.getD start 0) ++
            (a.limbs.take start).reverse.flatMap (fullWord .upper) := by
  induction count with
  | zero => exact ⟨none, rfl, fun _ => rfl, fun start h => by cases h⟩
  | succ i ih =>
      obtain ⟨highest, hRun, hNone, hSome⟩ := ih (by omega)
      have hNext : (a.limbs.take (i + 1)).reverse =
          a.limbs.getD i 0 :: (a.limbs.take i).reverse := by
        rw [take_succ_limbs a hCount, List.reverse_append]
        rfl
      rw [checkedHighest, read_limbs a hCount, ok_bind, hNext, descending]
      by_cases hZero : a.limbs.getD i 0 = 0
      · rw [if_neg (not_not_intro hZero), if_pos (beq_iff_eq.mpr hZero)]
        exact ⟨highest, hRun, hNone, hSome⟩
      · rw [if_pos hZero, if_neg (by simpa using hZero)]
        refine ⟨some i, rfl, fun h => (by cases h), fun start h => ?_⟩
        cases h
        exact ⟨hCount, rfl⟩

theorem checkedToHex_eq (a : FixedNat n) : a.checkedToHex = .ok a.toHex := by
  obtain ⟨highest, hRun, hNone, hSome⟩ := a.exists_checkedHighest_eq (Nat.le_refl n)
  rw [List.take_of_length_le a.length_limbs.le] at hNone hSome
  rw [checkedToHex, hRun, ok_bind, toHex, Hexadecimal.limbs]
  cases highest with
  | none =>
      rw [hNone rfl]
      rfl
  | some start =>
      obtain ⟨hStart, hDigits⟩ := hSome start rfl
      dsimp only
      rw [read_limbs a hStart, ok_bind, mapM_read_range (hStart.le.trans_eq a.length_limbs.symm),
        ok_bind, hDigits]
      rfl

theorem checkedDisplayText_eq (a : FixedNat n) : a.checkedDisplayText = .ok a.displayText := by
  rw [checkedDisplayText, checkedToHex_eq, ok_bind, toHex, String.toList_ofList,
    map_toLower_limbs]
  rfl

end FixedNat

namespace BufferedInt

variable {a : BufferedInt}

/-- The mark goes between the sign and the digits. -/
def checkedDisplayText (a : BufferedInt) : Checked String := do
  let hex ← a.checkedToHex
  if a.isNegative then
    let digits ← slice hex.toList 1 hex.toList.length
    return String.ofList ('-' :: '0' :: 'x' :: digits)
  else return String.ofList ('0' :: 'x' :: hex.toList)

theorem checkedDisplayText_eq (h : a.IsNormal) : a.checkedDisplayText = .ok a.displayText := by
  rw [checkedDisplayText, checkedToHex_eq h, ok_bind, toHex, displayText, String.toList_ofList,
    signText]
  split <;> rename_i hNegative
  · rw [slice_length (Nat.le_add_left 1 _), ok_bind]
    rfl
  · rfl

end BufferedInt

/-- Both readers take exactly the numerals of the grammar, the one those that fit into its width and
the other those with an optional minus sign, and without a sign they read the same. Whatever the
printers write is read back, and it has no leading zeros. -/
theorem numerals_exact (n : Nat) (text : String) :
    (∃ t, Text.Trimmed text.toList t ∧
      FixedNat.checkedOfHex? n text = .ok (FixedNat.ofHex? n text) ∧
      BufferedInt.checkedOfHex text = .ok (BufferedInt.ofHex text) ∧
      (∀ value, (∃ a : FixedNat n, FixedNat.ofHex? n text = some a ∧ a.toNat = value) ↔
        Numeral t value ∧ value < 2 ^ (64 * n)) ∧
      (∀ v, (∃ a, BufferedInt.ofHex text = .ok a ∧ a.toInt = v) ↔ SignedNumeral t v) ∧
      (t.head? ≠ some '-' → FixedNat.ofHex? n text =
        (BufferedInt.ofHex text).toOption.bind (·.toFixed? n))) ∧
    (∀ a : FixedNat n,
      (a.checkedToHex = .ok a.toHex ∧ a.checkedDisplayText = .ok a.displayText) ∧
      FixedNat.ofHex? n a.toHex = some a ∧ FixedNat.ofHex? n a.displayText = some a ∧
      IsCanonicalNumeral a.toHex a.toNat) ∧
    ∀ a : BufferedInt, a.IsNormal →
      (a.checkedToHex = .ok a.toHex ∧ a.checkedDisplayText = .ok a.displayText) ∧
      (∃ b, BufferedInt.ofHex a.toHex = .ok b ∧ b.sameNumber a = true) ∧
      (∃ b, BufferedInt.ofHex a.displayText = .ok b ∧ b.sameNumber a = true) ∧
      ∃ digits, a.toHex = String.ofList ((if a.toInt < 0 then ['-'] else []) ++ digits) ∧
        IsCanonicalNumeral (String.ofList digits) a.toInt.natAbs := by
  refine ⟨⟨Text.trim text.toList, Text.trimmed_trim _, FixedNat.checkedOfHex?_eq n text,
    BufferedInt.checkedOfHex_eq text, fun value => ?_, fun v => BufferedInt.exists_ofHex_eq_iff,
    BufferedInt.ofHex?_eq_bind_ofHex n⟩, fun a => ?_, fun a h => ?_⟩
  · rw [← base_pow_eq]
    exact FixedNat.exists_ofHex?_eq_iff
  · exact ⟨⟨a.checkedToHex_eq, a.checkedDisplayText_eq⟩, a.ofHex?_toHex, a.ofHex?_displayText,
      a.isCanonicalNumeral_toHex⟩
  · refine ⟨⟨BufferedInt.checkedToHex_eq h, BufferedInt.checkedDisplayText_eq h⟩,
      h.exists_ofHex_eq a.numeral_digits, h.exists_ofHex_eq a.numeral_marked_digits, a.digits, ?_,
      ?_⟩
    · simp only [← h.isNegative_iff]
      rfl
    · rw [a.natAbs_toInt]
      exact isCanonicalNumeral_limbs a.limbs

/-- The text has blanks, a mark and a leading zero, and the number is `-(2 ^ 64 + 16)`, whose lower
limb is written with zeros in front. -/
theorem numerals_exact_padded :
    let text := String.ofList [' ', '0', 'X', '0', 'f', '\n']
    let a := BufferedInt.ofSignedLimbs .minus [16, 1]
    (∃ v : FixedNat 1, FixedNat.ofHex? 1 text = some v ∧ v.toNat = 15) ∧
    FixedNat.ofHex? 1 text = (BufferedInt.ofHex text).toOption.bind (·.toFixed? 1) ∧
    ∃ b, BufferedInt.ofHex a.displayText = .ok b ∧ b.sameNumber a = true := by
  intro text a
  have hNormal : a.IsNormal := BufferedInt.isNormal_ofSignedLimbs .minus [16, 1]
  obtain ⟨⟨t, hTrimmed, -, -, hFixed, -, hSame⟩, -, hPrinted⟩ := numerals_exact 1 text
  obtain ⟨-, -, hShown, -⟩ := hPrinted a hNormal
  have hTrim := Text.trimmed_iff.mp hTrimmed
  rw [String.toList_ofList] at hTrim
  obtain rfl : ['0', 'X', '0', 'f'] = t := (show _ = _ by decide).trans hTrim
  have hMark : ['0', 'X'] ∈ marks := by decide
  have hDigits : Denotes ['0', 'f'] 15 :=
    (Denotes.nil.snoc (v := 0) (by decide)).snoc (c := 'f') (v := 15) (by decide)
  exact ⟨(hFixed 15).mpr ⟨.marked hMark (by decide) hDigits, by decide⟩, hSame (by decide), hShown⟩

end NybergRueppel
