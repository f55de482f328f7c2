import Mathlib.Data.List.Forall2
import NybergRueppel.Proofs.Text.Hexadecimal

/-!
Texts as numbers. A numeral is a string of hexadecimal digits of either case, which may have blanks
around it and a mark in front. The one that is written for a number is canonical: its digits are
upper-case, and there are no zeros in front of them.
-/
namespace NybergRueppel

/-- A step that may fail is taken for a whole list if it is taken for every item. -/
theorem mapM_eq_ok_iff {ε α β : Type} {f : α → Except ε β} {xs : List α} {ys : List β} :
    xs.mapM f = .ok ys ↔ List.Forall₂ (fun x y => f x = .ok y) xs ys := by
  induction xs generalizing ys with
  | nil => cases ys <;> simp [pure, Except.pure]
  | cons x xs ih =>
      rw [List.mapM_cons]
      cases hFirst : f x with
      | error e => cases ys <;> simp [bind, Except.bind, hFirst]
      | ok y =>
          cases hRest : xs.mapM f with
          | error e =>
              cases ys <;> simp [bind, Except.bind, ← ih, hRest]
          | ok rest =>
              cases ys <;> simp [bind, Except.bind, pure, Except.pure, ← ih, hFirst, hRest]

namespace Hexadecimal

variable {cs : List Char} {value value' : Nat}

/-- A string of digits stands for one number only. -/
theorem Writes.unique (h : Writes cs value) (h' : Writes cs value') : value = value' := by
  obtain ⟨vs, hDigits, rfl⟩ := h
  obtain ⟨vs', hDigits', rfl⟩ := h'
  have hSome : vs.map some = vs'.map some := hDigits.symm.trans hDigits'
  rw [(List.map_inj_right fun _ _ => Option.some.inj).mp hSome]

/-- The digits, the lowest first, are those of the number. -/
def LowDigits (cs : List Char) (value : Nat) : Prop :=
  ∃ vs : List UInt64, cs.map digitValue? = vs.map some ∧
    Nat.ofDigits 16 (vs.map UInt64.toNat) = value

theorem writes_iff_lowDigits {cs : List Char} {value : Nat} :
    Writes cs value ↔ LowDigits cs.reverse value := by
  constructor
  · rintro ⟨vs, hDigits, hValue⟩
    exact ⟨vs.reverse, by rw [List.map_reverse, hDigits, List.map_reverse], hValue⟩
  · rintro ⟨vs, hDigits, hValue⟩
    refine ⟨vs.reverse, ?_, by rwa [List.reverse_reverse]⟩
    rw [List.map_reverse, ← hDigits, List.map_reverse, List.reverse_reverse]

theorem lowDigits_nil {value : Nat} : LowDigits [] value ↔ value = 0 := by
  constructor
  · rintro ⟨vs, hDigits, rfl⟩
    cases vs with
    | nil => rfl
    | cons v vs => cases hDigits
  · rintro rfl
    exact ⟨[], rfl, rfl⟩

theorem not_lowDigits_cons {c : Char} {cs : List Char} {value : Nat} (hc : digitValue? c = none) :
    ¬LowDigits (c :: cs) value := by
  rintro ⟨vs, hDigits, -⟩
  cases vs with
  | nil => cases hDigits
  | cons v vs =>
      rw [List.map_cons, List.map_cons, List.cons.injEq, hc] at hDigits
      cases hDigits.1

theorem lowDigits_cons {c : Char} {cs : List Char} {value : Nat} {v : UInt64}
    (hc : digitValue? c = some v) :
    LowDigits (c :: cs) value ↔ ∃ rest, LowDigits cs rest ∧ value = v.toNat + 16 * rest := by
  constructor
  · rintro ⟨vs, hDigits, rfl⟩
    cases vs with
    | nil => cases hDigits
    | cons w vs =>
        rw [List.map_cons, List.map_cons, List.cons.injEq, hc, Option.some.injEq] at hDigits
        obtain ⟨rfl, hRest⟩ := hDigits
        exact ⟨_, ⟨vs, hRest, rfl⟩, Nat.ofDigits_cons ..⟩
  · rintro ⟨rest, ⟨vs, hDigits, rfl⟩, rfl⟩
    refine ⟨v :: vs, ?_, Nat.ofDigits_cons ..⟩
    rw [List.map_cons, hc, hDigits, List.map_cons]

/-- What can be read as limbs is a string of digits. -/
theorem writes_of_limbsOfDigits_eq {xs : List UInt64} (h : limbsOfDigits cs = .ok xs) :
    Writes cs (Limbs.toNat xs) := by
  have hDigits : ∃ vs : List UInt64, cs.reverse.map digitValue? = vs.map some := by
    simp only [limbsOfDigits, bind, Except.bind] at h
    split at h
    · cases h
    · rename_i vs hValues
      refine ⟨vs, ?_⟩
      rw [← List.forall₂_eq_eq_eq, List.forall₂_map_left_iff, List.forall₂_map_right_iff]
      apply (mapM_eq_ok_iff.mp hValues).imp
      intro c v hc
      split at hc
      · rename_i hDigit
        cases hc
        exact hDigit
      · cases hc
  obtain ⟨vs, hDigits⟩ := hDigits
  have hWrites : Writes cs (Nat.ofDigits 16 (vs.map UInt64.toNat)) := by
    refine ⟨vs.reverse, ?_, by rw [List.reverse_reverse]⟩
    rw [List.map_reverse, ← hDigits, List.map_reverse, List.reverse_reverse]
  obtain ⟨ys, hRead, hValue, -⟩ := hWrites.limbsOfDigits_eq
  rw [h] at hRead
  rw [Except.ok.inj hRead, hValue]
  exact hWrites

/-- The digits of a text: what stands between the blanks, without the mark. -/
def digitsOf (text : String) : List Char :=
  withoutMark (Text.trim text.toList)

/-- The text is a numeral for the number. -/
structure IsNumeral (text : String) (value : Nat) : Prop where
  digits_ne_nil : digitsOf text ≠ []
  writes : Writes (digitsOf text) value

def upperDigits : List Char :=
  ['0', '1', '2', '3', '4', '5', '6', '7', '8', '9', 'A', 'B', 'C', 'D', 'E', 'F']

/-- The text has upper-case digits only, and it starts with a zero only if it is that for zero. -/
structure IsCanonicalNumeral (text : String) (value : Nat) : Prop where
  isNumeral : IsNumeral text value
  mem_upperDigits : ∀ c ∈ text.toList, c ∈ upperDigits
  eq_zero_of_head : text.toList.head? = some '0' → text = "0"

theorem digit_mem_upperDigits {v : UInt64} (hv : v.toNat < 16) : digit .upper v ∈ upperDigits := by
  have hAll : ∀ k < 16, digit .upper (UInt64.ofNat k) ∈ upperDigits := by decide
  have hDigit := hAll v.toNat hv
  rwa [UInt64.ofNat_toNat] at hDigit

theorem mem_upperDigits_of_mem_fullWord {w : UInt64} {c : Char} (h : c ∈ fullWord .upper w) :
    c ∈ upperDigits := by
  rw [fullWord, List.mem_reverse, List.mem_map] at h
  obtain ⟨v, hv, rfl⟩ := h
  exact digit_mem_upperDigits (Word.lt_of_mem_toDigits (by decide) rfl hv)

theorem mem_upperDigits_of_mem_word {w : UInt64} {c : Char} (h : c ∈ word .upper w) :
    c ∈ upperDigits := by
  rw [word] at h
  split at h
  · rw [List.mem_singleton.mp h]
    decide
  · exact mem_upperDigits_of_mem_fullWord ((List.dropWhile_suffix _).subset h)

theorem mem_upperDigits_of_mem_descending {xs : List UInt64} {c : Char}
    (h : c ∈ descending .upper xs) : c ∈ upperDigits := by
  induction xs with
  | nil =>
      rw [List.mem_singleton.mp h]
      decide
  | cons x xs ih =>
      rw [descending] at h
      split at h
      · exact ih h
      · rcases List.mem_append.mp h with hFirst | hRest
        · exact mem_upperDigits_of_mem_word hFirst
        · obtain ⟨w, -, hw⟩ := List.mem_flatMap.mp hRest
          exact mem_upperDigits_of_mem_fullWord hw

/-- The digits of a word that is not zero start with another digit than zero. -/
theorem head?_word_ne (letters : LetterCase) {w : UInt64} (hw : w ≠ 0) :
    (word letters w).head? ≠ some '0' := by
  have hDropped := (writes_fullWord letters w).dropZeros
  rw [word]
  split <;> rename_i hEnd
  · rw [hEnd] at hDropped
    exact absurd (UInt64.toNat_inj.mp hDropped.eq_zero) hw
  · intro hHead
    have hNot := List.head?_dropWhile_not (· == '0') (fullWord letters w)
    rw [hHead] at hNot
    simp at hNot

theorem descending_eq_of_head? (letters : LetterCase) {xs : List UInt64}
    (h : (descending letters xs).head? = some '0') : descending letters xs = ['0'] := by
  induction xs with
  | nil => rfl
  | cons x xs ih =>
      rw [descending] at h ⊢
      split at h <;> rename_i hx
      · rw [if_pos hx]
        exact ih h
      · have hWord := head?_word_ne letters (ne_of_beq_false (Bool.eq_false_iff.mpr hx))
        cases hFirst : word letters x with
        | nil => exact absurd hFirst (word_ne_nil letters x)
        | cons c cs =>
            rw [hFirst] at h hWord
            exact absurd h hWord

theorem descending_eq_of_isZero (letters : LetterCase) {xs : List UInt64}
    (h : Limbs.isZero xs = true) : descending letters xs = ['0'] := by
  induction xs with
  | nil => rfl
  | cons x xs ih =>
      obtain ⟨hx, hRest⟩ := List.forall_mem_cons.mp (List.all_eq_true.mp h)
      rw [descending, if_pos hx]
      exact ih (List.all_eq_true.mpr hRest)

/-- Only zero is written as the digit zero. -/
theorem limbs_eq_zero_iff (letters : LetterCase) (xs : List UInt64) :
    limbs letters xs = ['0'] ↔ Limbs.toNat xs = 0 := by
  constructor
  · intro h
    exact (h ▸ writes_limbs letters xs).unique writes_zero
  · intro h
    apply descending_eq_of_isZero
    rw [Limbs.isZero, List.all_reverse]
    exact (Limbs.isZero_iff xs).mpr h

/-- The digits that are written for limbs are the canonical numeral of their number. -/
theorem isCanonicalNumeral_limbs (xs : List UInt64) :
    IsCanonicalNumeral (String.ofList (limbs .upper xs)) (Limbs.toNat xs) := by
  have hWrites := writes_limbs .upper xs
  have hDigits : digitsOf (String.ofList (limbs .upper xs)) = limbs .upper xs := by
    rw [digitsOf, String.toList_ofList, Text.trim_eq_self fun c hc => hWrites.isBlank_eq hc,
      hWrites.withoutMark_eq]
  refine ⟨⟨?_, ?_⟩, ?_, ?_⟩
  · rw [hDigits]
    exact limbs_ne_nil .upper xs
  · rw [hDigits]
    exact hWrites
  · intro c hc
    rw [String.toList_ofList] at hc
    exact mem_upperDigits_of_mem_descending hc
  · intro hHead
    rw [String.toList_ofList] at hHead
    rw [limbs, descending_eq_of_head? .upper hHead]

end Hexadecimal

end NybergRueppel
