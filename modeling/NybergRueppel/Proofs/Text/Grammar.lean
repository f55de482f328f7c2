import Mathlib.Data.List.Induction
import Mathlib.Data.List.TakeWhile
import NybergRueppel.Proofs.Text.Numeral

/-!
The grammar of hexadecimal numerals, written down without the functions that read them. What stands
between the blanks of a text is an optional mark and one or more digits of either case, with a minus
sign in front if the number is negative.
-/
namespace NybergRueppel

namespace Text

/-- The text has blanks around it, and none at its ends. -/
structure Trimmed (cs t : List Char) : Prop where
  exists_blanks : ∃ before after, cs = before ++ (t ++ after) ∧
    (∀ c ∈ before, isBlank c = true) ∧ ∀ c ∈ after, isBlank c = true
  head_not_blank : ∀ c ∈ t.head?, isBlank c = false
  last_not_blank : ∀ c ∈ t.getLast?, isBlank c = false

theorem dropWhile_isBlank {before cs : List Char} (hBefore : ∀ c ∈ before, isBlank c = true)
    (hcs : ∀ c ∈ cs.head?, isBlank c = false) : (before ++ cs).dropWhile isBlank = cs := by
  rw [List.dropWhile_append_of_pos hBefore]
  cases cs with
  | nil => rfl
  | cons c cs => exact List.dropWhile_cons_of_neg (Bool.eq_false_iff.mp (hcs c rfl))

theorem head?_dropWhile_isBlank (cs : List Char) :
    ∀ c ∈ (cs.dropWhile isBlank).head?, isBlank c = false := by
  intro c hc
  have hNot := List.head?_dropWhile_not isBlank cs
  rw [hc] at hNot
  simpa using hNot

theorem trim_of_blanks {before t after : List Char} (hBefore : ∀ c ∈ before, isBlank c = true)
    (hAfter : ∀ c ∈ after, isBlank c = true) (hHead : ∀ c ∈ t.head?, isBlank c = false)
    (hLast : ∀ c ∈ t.getLast?, isBlank c = false) : trim (before ++ (t ++ after)) = t := by
  have hEnd : trimEnd (t ++ after) = t := by
    have hReversed : ∀ c ∈ after.reverse, isBlank c = true := fun c hc =>
      hAfter c (List.mem_reverse.mp hc)
    rw [trimEnd, List.reverse_append, dropWhile_isBlank hReversed (List.head?_reverse ▸ hLast),
      List.reverse_reverse]
  cases t with
  | nil =>
      have hAll : ∀ c ∈ before ++ after, isBlank c = true := fun c hc =>
        (List.mem_append.mp hc).elim (hBefore c) (hAfter c)
      rw [trim, List.nil_append, List.dropWhile_eq_nil_iff.mpr hAll]
      rfl
  | cons c cs =>
      have hStart : ∀ d ∈ (c :: cs ++ after).head?, isBlank d = false := hHead
      rw [trim, dropWhile_isBlank hBefore hStart, hEnd]

theorem trimmed_trim (cs : List Char) : Trimmed cs (trim cs) := by
  let rest := cs.dropWhile isBlank
  let after := (rest.reverse.takeWhile isBlank).reverse
  have hRest : rest = trim cs ++ after := by
    simp only [trim, trimEnd, after, rest]
    rw [← List.reverse_append, List.takeWhile_append_dropWhile, List.reverse_reverse]
  refine ⟨⟨cs.takeWhile isBlank, after, ?_, fun c => List.mem_takeWhile_imp, ?_⟩, ?_, ?_⟩
  · rw [← hRest, List.takeWhile_append_dropWhile]
  · intro c hc
    exact List.mem_takeWhile_imp (List.mem_reverse.mp hc)
  · intro c hc
    apply head?_dropWhile_isBlank cs
    rw [← show rest = cs.dropWhile isBlank from rfl, hRest, List.head?_append, hc]
    rfl
  · intro c hc
    rw [trim, trimEnd, List.getLast?_reverse] at hc
    exact head?_dropWhile_isBlank _ c hc

/-- Only what is between the blanks is left by trimming. -/
theorem trimmed_iff {cs t : List Char} : Trimmed cs t ↔ trim cs = t := by
  constructor
  · rintro ⟨⟨before, after, rfl, hBefore, hAfter⟩, hHead, hLast⟩
    exact trim_of_blanks hBefore hAfter hHead hLast
  · rintro rfl
    exact trimmed_trim cs

end Text

namespace Hexadecimal

def lowerDigits : List Char :=
  ['0', '1', '2', '3', '4', '5', '6', '7', '8', '9', 'a', 'b', 'c', 'd', 'e', 'f']

/-- The character stands at the place of its value in one of the two alphabets. -/
def IsDigit (c : Char) (v : Nat) : Prop :=
  upperDigits[v]? = some c ∨ lowerDigits[v]? = some c

instance (c : Char) (v : Nat) : Decidable (IsDigit c v) :=
  inferInstanceAs (Decidable (_ ∨ _))

/-- A string of digits, the highest first, denotes a number. -/
inductive Denotes : List Char → Nat → Prop where
  | nil : Denotes [] 0
  | snoc {cs : List Char} {c : Char} {value v : Nat} (h : Denotes cs value)
      (hLast : IsDigit c v) : Denotes (cs ++ [c]) (16 * value + v)

/-- What may stand in front of the digits. -/
def marks : List (List Char) :=
  [[], ['0', 'x'], ['0', 'X']]

/-- An optional mark and at least one digit. -/
inductive Numeral : List Char → Nat → Prop where
  | marked {mark digits : List Char} {value : Nat} (hMark : mark ∈ marks)
      (hDigits : digits ≠ []) (hValue : Denotes digits value) : Numeral (mark ++ digits) value

/-- A numeral with an optional minus sign. -/
inductive SignedNumeral : List Char → Int → Prop where
  | unsigned {t : List Char} {value : Nat} (h : Numeral t value) : SignedNumeral t value
  | negative {t : List Char} {value : Nat} (h : Numeral t value) : SignedNumeral ('-' :: t) (-value)

/-- The characters that have a value are those of the two alphabets. -/
theorem isDigit_iff {c : Char} {v : Nat} :
    IsDigit c v ↔ ∃ w, digitValue? c = some w ∧ w.toNat = v := by
  constructor
  · intro h
    have hv : v < 16 := by
      rcases h with h | h <;> exact (List.getElem?_eq_some_iff.mp h).1
    have hUpper : ∀ v < 16, upperDigits[v]? = some (digit .upper (UInt64.ofNat v)) := by decide
    have hLower : ∀ v < 16, lowerDigits[v]? = some (digit .lower (UInt64.ofNat v)) := by decide
    have hValue : (UInt64.ofNat v).toNat = v := UInt64.toNat_ofNat_of_lt' (hv.trans (by decide))
    have hSmall : (UInt64.ofNat v).toNat < 16 := hValue.trans_lt hv
    refine ⟨UInt64.ofNat v, ?_, hValue⟩
    rw [IsDigit, hUpper v hv, hLower v hv, Option.some.injEq, Option.some.injEq] at h
    rcases h with rfl | rfl
    · exact digitValue?_digit .upper hSmall
    · exact digitValue?_digit .lower hSmall
  · rintro ⟨w, hw, rfl⟩
    have hAll : ∀ k < 128, (digitValue? (Char.ofNat k)).all
        (fun v => IsDigit (Char.ofNat k) v.toNat) = true := by
      decide
    have hChar := hAll c.toNat (toNat_lt_of_digitValue?_eq_some hw)
    rwa [Char.ofNat_toNat, hw, Option.all_some, decide_eq_true_iff] at hChar

theorem denotes_iff_lowDigits {cs : List Char} {value : Nat} :
    Denotes cs value ↔ LowDigits cs.reverse value := by
  constructor
  · intro h
    induction h with
    | nil => exact lowDigits_nil.mpr rfl
    | snoc h hLast ih =>
        obtain ⟨w, hw, rfl⟩ := isDigit_iff.mp hLast
        rw [List.reverse_append, List.reverse_singleton, List.singleton_append, lowDigits_cons hw]
        exact ⟨_, ih, Nat.add_comm _ _⟩
  · intro h
    induction cs using List.reverseRecOn generalizing value with
    | nil =>
        rw [lowDigits_nil.mp h]
        exact .nil
    | append_singleton cs c ih =>
        rw [List.reverse_append, List.reverse_singleton, List.singleton_append] at h
        cases hDigit : digitValue? c with
        | none => exact absurd h (not_lowDigits_cons hDigit)
        | some w =>
            obtain ⟨rest, hRest, rfl⟩ := (lowDigits_cons hDigit).mp h
            rw [Nat.add_comm]
            exact (ih hRest).snoc (isDigit_iff.mpr ⟨w, hDigit, rfl⟩)

theorem denotes_iff {cs : List Char} {value : Nat} : Denotes cs value ↔ Writes cs value :=
  denotes_iff_lowDigits.trans writes_iff_lowDigits.symm

/-- The mark is taken off, and what is left are the digits. -/
theorem numeral_iff {t : List Char} {value : Nat} :
    Numeral t value ↔ withoutMark t ≠ [] ∧ Writes (withoutMark t) value := by
  constructor
  · rintro ⟨hMark, hDigits, hValue⟩
    rename_i mark digits
    have hWrites := denotes_iff.mp hValue
    have hMarked : withoutMark (mark ++ digits) = digits := by
      simp only [marks, List.mem_cons, List.not_mem_nil, or_false] at hMark
      rcases hMark with rfl | rfl | rfl
      · exact hWrites.withoutMark_eq
      · rfl
      · rfl
    rw [hMarked]
    exact ⟨hDigits, hWrites⟩
  · rintro ⟨hDigits, hWrites⟩
    have hValue := denotes_iff.mpr hWrites
    obtain ⟨mark, hMark, ht⟩ : ∃ mark ∈ marks, t = mark ++ withoutMark t := by
      unfold withoutMark
      split
      · exact ⟨['0', 'x'], by decide, rfl⟩
      · exact ⟨['0', 'X'], by decide, rfl⟩
      · exact ⟨[], by decide, rfl⟩
    rw [ht]
    exact .marked hMark hDigits hValue

theorem numeral_iff_limbsOfDigits {t : List Char} {value : Nat} :
    Numeral t value ↔ withoutMark t ≠ [] ∧
      ∃ xs, limbsOfDigits (withoutMark t) = .ok xs ∧ Limbs.toNat xs = value := by
  rw [numeral_iff]
  refine and_congr_right fun _ => ⟨fun hWrites => ?_, ?_⟩
  · obtain ⟨xs, hRead, hValue, -⟩ := hWrites.limbsOfDigits_eq
    exact ⟨xs, hRead, hValue⟩
  · rintro ⟨xs, hRead, rfl⟩
    exact writes_of_limbsOfDigits_eq hRead

theorem isNumeral_iff {text : String} {value : Nat} :
    IsNumeral text value ↔ Numeral (Text.trim text.toList) value := by
  rw [numeral_iff]
  exact ⟨fun h => ⟨h.digits_ne_nil, h.writes⟩, fun h => ⟨h.1, h.2⟩⟩

namespace Numeral

variable {t : List Char} {value : Nat}

/-- There are no blanks in a numeral, so that trimming keeps it. -/
theorem isBlank_eq (h : Numeral t value) : ∀ c ∈ t, Text.isBlank c = false := by
  obtain ⟨hMark, -, hValue⟩ := h
  intro c hc
  rcases List.mem_append.mp hc with hc | hc
  · simp only [marks, List.mem_cons, List.not_mem_nil, or_false] at hMark
    rcases hMark with rfl | rfl | rfl <;>
      simp only [List.mem_cons, List.not_mem_nil, or_false] at hc
    · rcases hc with rfl | rfl <;> rfl
    · rcases hc with rfl | rfl <;> rfl
  · exact (denotes_iff.mp hValue).isBlank_eq hc

theorem trim_eq (h : Numeral t value) : Text.trim t = t :=
  Text.trim_eq_self h.isBlank_eq

/-- What starts with a minus sign is no numeral. -/
theorem head?_ne (h : Numeral t value) : t.head? ≠ some '-' := by
  intro hMinus
  obtain ⟨rest, rfl⟩ := List.head?_eq_some_iff.mp hMinus
  obtain ⟨-, hWrites⟩ := numeral_iff.mp h
  have hSelf : withoutMark ('-' :: rest) = '-' :: rest := rfl
  rw [hSelf] at hWrites
  obtain ⟨v, hv⟩ := hWrites.digitValue?_eq List.mem_cons_self
  exact (of_digitValue?_eq_some hv).2.2.1 rfl

end Numeral

theorem SignedNumeral.trim_eq {t : List Char} {v : Int} (h : SignedNumeral t v) :
    Text.trim t = t := by
  cases h with
  | unsigned h => exact h.trim_eq
  | negative h =>
      exact Text.trim_eq_self (List.forall_mem_cons.mpr ⟨rfl, h.isBlank_eq⟩)

end Hexadecimal

end NybergRueppel
