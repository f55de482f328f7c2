import NybergRueppel.Proofs.Limbs.Digits
import NybergRueppel.Text.Blank
import NybergRueppel.Text.Hexadecimal

/-!
Hexadecimal texts as numbers. What is written for limbs are digits of their number without leading
zeros, and digits are read back as limbs of the same number.
-/
namespace NybergRueppel

theorem Text.trim_eq_self {cs : List Char} (h : ∀ c ∈ cs, isBlank c = false) : trim cs = cs := by
  have hKeep {ds : List Char} (hds : ∀ c ∈ ds, isBlank c = false) : ds.dropWhile isBlank = ds := by
    cases ds with
    | nil => rfl
    | cons d ds =>
        exact List.dropWhile_cons_of_neg (Bool.eq_false_iff.mp (hds d List.mem_cons_self))
  rw [trim, trimEnd, hKeep h, hKeep fun c hc => h c (List.mem_reverse.mp hc), List.reverse_reverse]

namespace Hexadecimal

theorem digitValue?_digit (letters : LetterCase) {v : UInt64} (hv : v.toNat < 16) :
    digitValue? (digit letters v) = some v := by
  have hAll : ∀ k < 16, digitValue? (digit letters (UInt64.ofNat k)) = some (UInt64.ofNat k) := by
    cases letters <;> decide
  have hValue := hAll v.toNat hv
  rwa [UInt64.ofNat_toNat] at hValue

theorem toNat_lt_of_digitValue?_eq_some {c : Char} {v : UInt64} (h : digitValue? c = some v) :
    c.toNat < 128 := by
  by_contra hLarge
  rw [digitValue?, if_neg (by omega), if_neg (by omega), if_neg (by omega)] at h
  cases h

/-- A digit is neither blank nor a sign nor part of a mark, and its value is below sixteen. -/
theorem of_digitValue?_eq_some {c : Char} {v : UInt64} (h : digitValue? c = some v) :
    v.toNat < 16 ∧ Text.isBlank c = false ∧ c ≠ '-' ∧ c ≠ 'x' ∧ c ≠ 'X' := by
  have hAscii := toNat_lt_of_digitValue?_eq_some h
  have hAll : ∀ k < 128, (digitValue? (Char.ofNat k)).all (fun v => v.toNat < 16 ∧
      Text.isBlank (Char.ofNat k) = false ∧ Char.ofNat k ≠ '-' ∧ Char.ofNat k ≠ 'x' ∧
      Char.ofNat k ≠ 'X') = true := by
    decide +kernel
  have hChar := hAll c.toNat hAscii
  rw [Char.ofNat_toNat, h, Option.all_some, decide_eq_true_iff] at hChar
  exact hChar

/-- The digits, the highest first, are those of the number. -/
def Writes (cs : List Char) (value : Nat) : Prop :=
  ∃ vs : List UInt64, cs.map digitValue? = vs.map some ∧
    Nat.ofDigits 16 (vs.reverse.map UInt64.toNat) = value

theorem writes_zero : Writes ['0'] 0 :=
  ⟨[0], by decide, rfl⟩

/-- No digits stand for zero. -/
theorem Writes.eq_zero {value : Nat} (h : Writes [] value) : value = 0 := by
  obtain ⟨vs, hDigits, rfl⟩ := h
  cases vs with
  | nil => rfl
  | cons v vs => cases hDigits

theorem Writes.append {cs ds : List Char} {value value' : Nat} (h : Writes cs value)
    (h' : Writes ds value') : Writes (cs ++ ds) (value' + 16 ^ ds.length * value) := by
  obtain ⟨vs, hDigits, rfl⟩ := h
  obtain ⟨vs', hDigits', rfl⟩ := h'
  have hLength : (vs'.reverse.map UInt64.toNat).length = ds.length := by
    have hMapped := congrArg List.length hDigits'
    rw [List.length_map, List.length_map] at hMapped
    rw [List.length_map, List.length_reverse, hMapped]
  refine ⟨vs ++ vs', ?_, ?_⟩
  · rw [List.map_append, hDigits, hDigits', List.map_append]
  · rw [List.reverse_append, List.map_append, Nat.ofDigits_append, hLength]

/-- Leading zeros do not matter. -/
theorem Writes.dropZeros {cs : List Char} {value : Nat} (h : Writes cs value) :
    Writes (cs.dropWhile (· == '0')) value := by
  induction cs with
  | nil => exact h
  | cons c cs ih =>
      by_cases hc : c = '0'
      · rw [hc, List.dropWhile_cons_of_pos (by decide)]
        apply ih
        obtain ⟨vs, hDigits, hValue⟩ := h
        cases vs with
        | nil => cases hDigits
        | cons v vs =>
            rw [List.map_cons, List.map_cons, List.cons.injEq, hc] at hDigits
            have hv : v = 0 := Option.some.inj (hDigits.1.symm.trans (by decide))
            refine ⟨vs, hDigits.2, ?_⟩
            rw [List.reverse_cons, List.map_append, Nat.ofDigits_append, hv] at hValue
            exact hValue
      · rw [List.dropWhile_cons_of_neg (by simpa using hc)]
        exact h

theorem length_fullWord (letters : LetterCase) (w : UInt64) : (fullWord letters w).length = 16 := by
  rw [fullWord, List.length_reverse, List.length_map, Word.toDigits, List.length_map,
    List.length_range]

theorem writes_fullWord (letters : LetterCase) (w : UInt64) :
    Writes (fullWord letters w) w.toNat := by
  have hWidth : 4 < 64 := by decide
  have hCount : 16 * 4 = 64 := rfl
  refine ⟨(Word.toDigits 4 16 w).reverse, ?_, ?_⟩
  · rw [fullWord, List.map_reverse, List.map_map, List.map_reverse]
    congr 1
    apply List.map_congr_left
    intro v hv
    exact digitValue?_digit letters (Word.lt_of_mem_toDigits hWidth hCount hv)
  · rw [List.reverse_reverse, show 16 = 2 ^ 4 from rfl]
    exact Word.ofDigits_toDigits hWidth hCount w

theorem writes_word (letters : LetterCase) (w : UInt64) : Writes (word letters w) w.toNat := by
  have hDropped := (writes_fullWord letters w).dropZeros
  rw [word]
  split <;> rename_i hEnd
  · rw [hEnd] at hDropped
    rw [hDropped.eq_zero]
    exact writes_zero
  · exact hDropped

theorem length_word_le (letters : LetterCase) (w : UInt64) : (word letters w).length ≤ 16 := by
  rw [word]
  split
  · decide
  · rw [← length_fullWord letters w]
    exact (List.dropWhile_suffix _).length_le

/-- All digits of the lower limbs follow the digits of the highest one. -/
theorem writes_flatMap (letters : LetterCase) {cs : List Char} {value : Nat} (h : Writes cs value)
    (xs : List UInt64) :
    Writes (cs ++ xs.flatMap (fullWord letters))
      (Limbs.toNat xs.reverse + Word.base ^ xs.length * value) := by
  induction xs generalizing cs value with
  | nil =>
      rw [List.flatMap_nil, List.append_nil, List.reverse_nil, Limbs.toNat_nil, List.length_nil,
        pow_zero, Nat.one_mul, Nat.zero_add]
      exact h
  | cons x xs ih =>
      have hNext := ih (h.append (writes_fullWord letters x))
      have hValue : Limbs.toNat (x :: xs).reverse + Word.base ^ (x :: xs).length * value =
          Limbs.toNat xs.reverse +
            Word.base ^ xs.length * (x.toNat + 16 ^ (fullWord letters x).length * value) := by
        rw [List.reverse_cons, Limbs.toNat_append, Limbs.toNat_cons, Limbs.toNat_nil,
          List.length_reverse, List.length_cons, length_fullWord,
          show 16 ^ 16 = Word.base from rfl, pow_succ]
        ring
      rw [List.flatMap_cons, ← List.append_assoc, hValue]
      exact hNext

theorem length_flatMap_fullWord (letters : LetterCase) (xs : List UInt64) :
    (xs.flatMap (fullWord letters)).length = 16 * xs.length := by
  induction xs with
  | nil => rfl
  | cons x xs ih =>
      rw [List.flatMap_cons, List.length_append, length_fullWord, ih, List.length_cons]
      omega

theorem writes_descending (letters : LetterCase) (xs : List UInt64) :
    Writes (descending letters xs) (Limbs.toNat xs.reverse) := by
  induction xs with
  | nil => exact writes_zero
  | cons x xs ih =>
      rw [descending, List.reverse_cons, Limbs.toNat_append, Limbs.toNat_cons, Limbs.toNat_nil,
        Nat.mul_zero, Nat.add_zero, List.length_reverse]
      split <;> rename_i hx
      · rw [beq_iff_eq.mp hx]
        exact ih
      · exact writes_flatMap letters (writes_word letters x) xs

/-- The digits that are written for limbs are those of their number. -/
theorem writes_limbs (letters : LetterCase) (xs : List UInt64) :
    Writes (limbs letters xs) (Limbs.toNat xs) := by
  have hReversed := writes_descending letters xs.reverse
  rwa [List.reverse_reverse] at hReversed

theorem length_descending_le (letters : LetterCase) (xs : List UInt64) :
    (descending letters xs).length ≤ 16 * max 1 xs.length := by
  induction xs with
  | nil => exact Nat.le_add_left 1 15
  | cons x xs ih =>
      rw [descending, List.length_cons]
      split
      · omega
      · have hWord := length_word_le letters x
        rw [List.length_append, length_flatMap_fullWord]
        omega

theorem length_limbs_le (letters : LetterCase) (xs : List UInt64) :
    (limbs letters xs).length ≤ 16 * max 1 xs.length := by
  have hReversed := length_descending_le letters xs.reverse
  rwa [List.length_reverse] at hReversed

theorem word_ne_nil (letters : LetterCase) (w : UInt64) : word letters w ≠ [] := by
  rw [word]
  split
  · exact List.cons_ne_nil _ _
  · assumption

theorem descending_ne_nil (letters : LetterCase) (xs : List UInt64) :
    descending letters xs ≠ [] := by
  induction xs with
  | nil => exact List.cons_ne_nil _ _
  | cons x xs ih =>
      rw [descending]
      split
      · exact ih
      · exact List.append_ne_nil_of_left_ne_nil (word_ne_nil letters x) _

theorem limbs_ne_nil (letters : LetterCase) (xs : List UInt64) : limbs letters xs ≠ [] :=
  descending_ne_nil letters xs.reverse

namespace Writes

variable {cs : List Char} {value : Nat}

/-- Every character of the digits of a number is a digit. -/
theorem digitValue?_eq (h : Writes cs value) {c : Char} (hc : c ∈ cs) :
    ∃ v, digitValue? c = some v := by
  obtain ⟨vs, hDigits, -⟩ := h
  have hMapped := List.mem_map_of_mem hc (f := digitValue?)
  rw [hDigits, List.mem_map] at hMapped
  obtain ⟨v, -, hv⟩ := hMapped
  exact ⟨v, hv.symm⟩

/-- Digits are not blank, so that trimming keeps them. -/
theorem isBlank_eq (h : Writes cs value) {c : Char} (hc : c ∈ cs) : Text.isBlank c = false := by
  obtain ⟨v, hv⟩ := h.digitValue?_eq hc
  exact (of_digitValue?_eq_some hv).2.1

/-- Digits do not start with a mark. -/
theorem withoutMark_eq (h : Writes cs value) : withoutMark cs = cs := by
  have hDigit {c : Char} (hc : c ∈ cs) : c ≠ 'x' ∧ c ≠ 'X' := by
    obtain ⟨v, hv⟩ := h.digitValue?_eq hc
    exact (of_digitValue?_eq_some hv).2.2.2
  unfold withoutMark
  split
  · exact absurd rfl (hDigit (List.mem_cons_of_mem _ List.mem_cons_self)).1
  · exact absurd rfl (hDigit (List.mem_cons_of_mem _ List.mem_cons_self)).2
  · rfl

/-- A step that takes the value of every digit takes all of them. -/
theorem mapM_eq_ok {f : Char → Except Char UInt64}
    (hf : ∀ {c v}, digitValue? c = some v → f c = .ok v) {ds : List Char} {vs : List UInt64}
    (h : ds.map digitValue? = vs.map some) : ds.mapM f = .ok vs := by
  induction ds generalizing vs with
  | nil =>
      cases vs with
      | nil => rfl
      | cons v vs => cases h
  | cons d ds ih =>
      cases vs with
      | nil => cases h
      | cons v vs =>
          rw [List.map_cons, List.map_cons, List.cons.injEq] at h
          rw [List.mapM_cons, hf h.1, ih h.2]
          rfl

/-- Reading digits gives limbs of their number, and sixteen digits make one limb. -/
theorem limbsOfDigits_eq (h : Writes cs value) :
    ∃ xs, limbsOfDigits cs = .ok xs ∧ Limbs.toNat xs = value ∧
      xs.length = (cs.length + 15) / 16 := by
  obtain ⟨vs, hDigits, hValue⟩ := h
  have hReversed : cs.reverse.map digitValue? = vs.reverse.map some := by
    rw [List.map_reverse, hDigits, List.map_reverse]
  have hBelow : ∀ v ∈ vs.reverse, v.toNat < 2 ^ 4 := by
    intro v hv
    have hMapped := List.mem_map_of_mem hv (f := some)
    rw [← hReversed, List.mem_map] at hMapped
    obtain ⟨c, -, hc⟩ := hMapped
    exact (of_digitValue?_eq_some hc).1
  have hLength : vs.reverse.length = cs.length := by
    have hMapped := congrArg List.length hReversed
    rw [List.length_map, List.length_map, List.length_reverse] at hMapped
    exact hMapped.symm
  refine ⟨Limbs.ofDigits 4 16 vs.reverse, ?_, ?_, ?_⟩
  · rw [limbsOfDigits, mapM_eq_ok (fun hc => by rw [hc]) hReversed]
    rfl
  · rw [← hValue]
    exact Limbs.toNat_ofDigits (by decide) (by decide) rfl _ hBelow
  · rw [Limbs.length_ofDigits 4 (by decide), hLength]

end Writes

end Hexadecimal

end NybergRueppel
