import NybergRueppel.CommandLine.Run
import NybergRueppel.Proofs.BufferedInt.Written
import NybergRueppel.Proofs.CommandLine.Options
import NybergRueppel.Proofs.FixedNat.Written

/-!
What commands print. Numbers and coordinates are printed in digits and commas, so that they can be
told from the lines around them and given to another command as they are, which reads the same
numbers again.
-/
namespace NybergRueppel

open Hexadecimal

namespace BufferedInt

variable {a : BufferedInt}

theorem toHex_eq_of_isNegative_eq (h : a.isNegative = false) :
    a.toHex = String.ofList (Hexadecimal.limbs .upper a.limbs) := by
  rw [toHex, signText, if_neg (Bool.eq_false_iff.mp h), List.nil_append, digits]

theorem toHex_eq_zero_iff (h : a.isNegative = false) : a.toHex = "0" ↔ a.magnitude = 0 := by
  rw [toHex_eq_of_isNegative_eq h, magnitude, ← limbs_eq_zero_iff .upper, ← String.toList_inj,
    String.toList_ofList]
  exact Iff.rfl

end BufferedInt

namespace CommandLine

/-- The text holds upper-case digits and commas only. -/
def IsPrinted (text : String) : Prop :=
  ∀ c ∈ text.toList, c ∈ ',' :: upperDigits

instance (text : String) : Decidable (IsPrinted text) :=
  List.decidableBAll (· ∈ ',' :: upperDigits) text.toList

namespace IsPrinted

variable {text : String}

/-- It does not look like an option. -/
theorem isPlain (h : IsPrinted text) : IsPlain text := by
  intro c cs hText
  have hHyphen := h '-' (hText ▸ List.mem_cons_self)
  revert hHyphen
  decide

theorem newline_notMem (h : IsPrinted text) : '\n' ∉ text.toList := by
  intro hMem
  have hNewline := h '\n' hMem
  revert hNewline
  decide

theorem of_isCanonicalNumeral {value : Nat} (h : IsCanonicalNumeral text value) : IsPrinted text :=
  fun c hc => List.mem_cons_of_mem ',' (h.mem_upperDigits c hc)

/-- A number that is not negative is printed in digits. -/
theorem toHex {a : BufferedInt} (h : a.isNegative = false) : IsPrinted a.toHex := by
  rw [BufferedInt.toHex_eq_of_isNegative_eq h]
  exact of_isCanonicalNumeral (isCanonicalNumeral_limbs a.limbs)

theorem coordinateText (xs : List (FixedNat limbCount)) : IsPrinted (coordinateText xs) := by
  have hHex (x : FixedNat limbCount) : ∀ c ∈ x.toHex.toList, c ∈ ',' :: upperDigits :=
    of_isCanonicalNumeral x.isCanonicalNumeral_toHex
  have hSeparator : IsPrinted "," := by decide
  rw [IsPrinted, CommandLine.coordinateText, String.toList_intercalate, List.map_map]
  induction xs with
  | nil =>
      intro c hc
      cases hc
  | cons x xs ih =>
      cases xs with
      | nil => simpa using hHex x
      | cons y ys =>
          rw [List.map_cons, List.map_cons, List.intercalate_cons_cons]
          simp only [List.forall_mem_append]
          exact ⟨⟨hHex x, hSeparator⟩, ih⟩

end IsPrinted

/-- A number that is printed is read with its sign and its magnitude. -/
theorem readNumber?_toHex {a : BufferedInt} (h : a.IsNormal) :
    ∃ b, readNumber? a.toHex = some b ∧ b.isNegative = a.isNegative ∧
      b.magnitude = a.magnitude := by
  obtain ⟨b, hRead, hSame⟩ := BufferedInt.ofHex_toHex h
  have hNormal := BufferedInt.isNormal_of_ofHex_eq hRead
  refine ⟨b, by rw [readNumber?, hRead]; rfl, ?_, ?_⟩
  · rw [← hSame]
    rfl
  · rw [← hSame, BufferedInt.magnitude, BufferedInt.magnitude,
      BufferedInt.limbs_withMinRoom hNormal.size_le_room]

/-- The numbers between the commas are read one by one. -/
theorem readCoefficients?_coordinateText {xs : List (FixedNat limbCount)} (h : xs ≠ []) :
    readCoefficients? (coordinateText xs) = some xs := by
  have hComma : ∀ cs ∈ (xs.map FixedNat.toHex).map String.toList, ',' ∉ cs := by
    simp only [List.map_map, List.forall_mem_map]
    intro x _ hMem
    have hDigit := x.isCanonicalNumeral_toHex.mem_upperDigits ',' hMem
    revert hDigit
    decide
  have hPieces : splitAtCommas (coordinateText xs).toList =
      (xs.map FixedNat.toHex).map String.toList := by
    rw [splitAtCommas_eq_splitOn, coordinateText, String.toList_intercalate]
    exact List.splitOn_intercalate ',' hComma (by simpa using h)
  rw [readCoefficients?, hPieces, List.mapM_map, List.mapM_map]
  simp only [Function.comp_def, String.ofList_toList, FixedNat.ofHex?_toHex]
  rw [← Option.pure_def, List.mapM_pure, List.map_id', Option.pure_def]

/-- Two lines can be told apart if neither holds the end of a line. -/
theorem linesText_pair_inj {first second first' second' : String} (h : '\n' ∉ first.toList)
    (h' : '\n' ∉ second.toList)
    (hText : linesText [first, second] = linesText [first', second']) :
    first = first' ∧ second = second' := by
  have hLines (a b : String) :
      (linesText [a, b]).toList = (a.toList ++ '\n' :: b.toList) ++ ['\n'] := by
    simp [linesText]
  have hChars := congrArg String.toList hText
  rw [hLines, hLines, List.append_left_inj, List.append_cons_inj_of_notMem h h'] at hChars
  exact ⟨String.toList_inj.mp hChars.1, String.toList_inj.mp hChars.2.2⟩

/-- What is printed behind two labels can be taken from the lines. -/
theorem eq_of_labelled_lines_eq {label label' text text' a b : String}
    (hLabel : '\n' ∉ label.toList) (hLabel' : '\n' ∉ label'.toList) (ha : IsPrinted a)
    (hb : IsPrinted b)
    (hText : linesText [label ++ a, label' ++ b] = linesText [label ++ text, label' ++ text']) :
    text = a ∧ text' = b := by
  have hLine {label text : String} (h : '\n' ∉ label.toList) (hText : IsPrinted text) :
      '\n' ∉ (label ++ text).toList := by
    rw [String.toList_append, List.mem_append, not_or]
    exact ⟨h, hText.newline_notMem⟩
  have hCancel {label text text' : String} (h : label ++ text = label ++ text') : text' = text := by
    have hChars := congrArg String.toList h
    rw [String.toList_append, String.toList_append, List.append_cancel_left_eq] at hChars
    exact (String.toList_inj.mp hChars).symm
  obtain ⟨hFirst, hSecond⟩ := linesText_pair_inj (hLine hLabel ha) (hLine hLabel' hb) hText
  exact ⟨hCancel hFirst, hCancel hSecond⟩

end CommandLine

end NybergRueppel
