import Mathlib.Data.List.Basic
import NybergRueppel.Json.Reader
import NybergRueppel.Json.Writer

/-!
Numerals that are written and read back. What is written is the sign, the digits before the point,
those after it and the exponent; the reader takes each part up to the first character that cannot
belong to it.
-/
namespace NybergRueppel

namespace JsonNumeral

/-- The digits as the grammar has them: at least one before the point, where a zero stands alone,
and at least one in an exponent. -/
structure IsWellFormed (x : JsonNumeral) : Prop where
  whole_ne_nil : x.whole ≠ []
  whole_eq_zero : x.whole.head? = some 0 → x.whole = [0]
  whole_lt : ∀ d ∈ x.whole, d < 10
  fraction_lt : ∀ d ∈ x.fraction, d < 10
  exponent_ne_nil : ∀ e ∈ x.exponent, e.digits ≠ []
  exponent_lt : ∀ e ∈ x.exponent, ∀ d ∈ e.digits, d < 10

theorem ofDecimal_concat (digits : List Nat) (d : Nat) :
    ofDecimal (digits ++ [d]) = ofDecimal digits * 10 + d := by
  rw [ofDecimal, List.foldl_append]
  rfl

theorem ofDecimal_toDecimal (v : Nat) : ofDecimal (toDecimal v) = v := by
  induction v using toDecimal.induct with
  | case1 v hLess =>
      rw [toDecimal, if_pos hLess]
      exact Nat.zero_add v
  | case2 v hLarge ih =>
      rw [toDecimal, if_neg hLarge, ofDecimal_concat, ih]
      exact Nat.div_add_mod' v 10

theorem toDecimal_ne_nil (v : Nat) : toDecimal v ≠ [] := by
  rw [toDecimal]
  split <;> simp

theorem lt_ten_of_mem_toDecimal {v d : Nat} (h : d ∈ toDecimal v) : d < 10 := by
  induction v using toDecimal.induct with
  | case1 v hLess =>
      rw [toDecimal, if_pos hLess, List.mem_singleton] at h
      omega
  | case2 v hLarge ih =>
      rw [toDecimal, if_neg hLarge, List.mem_append, List.mem_singleton] at h
      rcases h with hHigh | rfl
      · exact ih hHigh
      · exact Nat.mod_lt v (by decide)

/-- Only zero starts with a zero. -/
theorem eq_zero_of_head?_toDecimal {v : Nat} (h : (toDecimal v).head? = some 0) : v = 0 := by
  induction v using toDecimal.induct with
  | case1 v hLess =>
      rw [toDecimal, if_pos hLess] at h
      exact Option.some.inj h
  | case2 v hLarge ih =>
      rw [toDecimal, if_neg hLarge, List.head?_append_of_ne_nil _ (toDecimal_ne_nil _)] at h
      have := ih h
      omega

theorem isWellFormed_ofNat (v : Nat) : (ofNat v).IsWellFormed where
  whole_ne_nil := toDecimal_ne_nil v
  whole_eq_zero h := by
    have hZero : v = 0 := eq_zero_of_head?_toDecimal h
    rw [ofNat, hZero, toDecimal]
    rfl
  whole_lt _ h := lt_ten_of_mem_toDecimal h
  fraction_lt _ h := by cases h
  exponent_ne_nil _ h := by cases h
  exponent_lt _ h := by cases h

variable {v : Nat}

theorem natural?_ofNat (h : v < wordLimit) : (ofNat v).natural? = some v := by
  rw [natural?, ofNat]
  dsimp only
  rw [ofDecimal_toDecimal]
  simp [h]

/-- Digits whose number fits into a word are all taken in. -/
theorem approximateWhole_eq {ds : List Nat} {a : Approximation}
    (h : ds.foldl (fun value d => value * 10 + d) a.significand < wordLimit) :
    approximateWhole ds a =
      { a with significand := ds.foldl (fun value d => value * 10 + d) a.significand } := by
  induction ds generalizing a with
  | nil => rfl
  | cons d ds ih =>
      have hGrows (ds : List Nat) (s : Nat) :
          s ≤ ds.foldl (fun value d => value * 10 + d) s := by
        induction ds generalizing s with
        | nil => exact Nat.le_refl s
        | cons d ds ih => exact Nat.le_trans (by omega) (ih (s * 10 + d))
      rw [List.foldl_cons] at h ⊢
      have hFits := Nat.lt_of_le_of_lt (hGrows ds (a.significand * 10 + d)) h
      rw [approximateWhole, if_neg (Nat.not_le.mpr hFits), ih h]

theorem isFinite_ofNat (h : v < wordLimit) : (ofNat v).isFinite = true := by
  have hWhole : approximateWhole (toDecimal v) { significand := 0, power := 0 } =
      { significand := v, power := 0 } := by
    have hValue := ofDecimal_toDecimal v
    rw [ofDecimal] at hValue
    rw [approximateWhole_eq (by rwa [hValue]), hValue]
  rw [isFinite, ofNat]
  dsimp only
  rw [hWhole]
  simp [approximateFraction]

end JsonNumeral

namespace Json

/-- Nothing follows, or a character that is no digit. -/
def EndsDigits (rest : List Char) : Prop :=
  ∀ c ∈ rest.head?, c.isDigit = false

/-- Nothing follows, or a character that cannot continue a numeral. -/
def EndsNumeral (rest : List Char) : Prop :=
  ∀ c ∈ rest.head?, c.isDigit = false ∧ c ≠ '.' ∧ c ≠ 'e' ∧ c ≠ 'E'

theorem EndsNumeral.endsDigits {rest : List Char} (h : EndsNumeral rest) : EndsDigits rest :=
  fun c hc => (h c hc).1

variable {ds : List Nat} {rest : List Char}

theorem digitChar_spec {d : Nat} (h : d < 10) :
    (Char.ofNat (0x30 + d)).isDigit = true ∧ (Char.ofNat (0x30 + d)).toNat - 0x30 = d := by
  revert d
  decide

theorem isDigit_of_mem_digitChars (h : ∀ d ∈ ds, d < 10) {c : Char} (hc : c ∈ digitChars ds) :
    c.isDigit = true := by
  obtain ⟨d, hd, rfl⟩ := List.mem_map.mp hc
  exact (digitChar_spec (h d hd)).1

theorem takeWhile_isDigit_eq_nil (h : EndsDigits rest) : rest.takeWhile Char.isDigit = [] := by
  cases rest with
  | nil => rfl
  | cons c cs => rw [List.takeWhile_cons, if_neg (Bool.eq_false_iff.mp (h c rfl))]

/-- The digits that were written are read up to what ends them. -/
theorem digits_append (h : ∀ d ∈ ds, d < 10) (hRest : EndsDigits rest) :
    digits (digitChars ds ++ rest) = ds := by
  rw [digits, List.takeWhile_append_of_pos fun c hc => isDigit_of_mem_digitChars h hc,
    takeWhile_isDigit_eq_nil hRest, List.append_nil, digitChars, List.map_map]
  conv_rhs => rw [← List.map_id ds]
  exact List.map_congr_left fun d hd => (digitChar_spec (h d hd)).2

theorem afterDigits_append (h : ∀ d ∈ ds, d < 10) (hRest : EndsDigits rest) :
    afterDigits (digitChars ds ++ rest) = rest := by
  rw [afterDigits, List.dropWhile_append_of_pos fun c hc => isDigit_of_mem_digitChars h hc]
  cases rest with
  | nil => rfl
  | cons c cs => rw [List.dropWhile_cons, if_neg (Bool.eq_false_iff.mp (hRest c rfl))]

theorem whole?_append (hNonempty : ds ≠ []) (hZero : ds.head? = some 0 → ds = [0])
    (h : ∀ d ∈ ds, d < 10) (hRest : EndsDigits rest) :
    whole? (digitChars ds ++ rest) = some (ds, rest) := by
  rw [whole?, digits_append h hRest, afterDigits_append h hRest]
  split
  · contradiction
  · cases hZero rfl
  · rfl

/-- The digits after the point with their point, and nothing if there are none. -/
def fractionChars (ds : List Nat) : List Char :=
  if ds.isEmpty then [] else '.' :: digitChars ds

/-- The exponent with its mark, and nothing if there is none. -/
def exponentChars : Option JsonExponent → List Char
  | none => []
  | some e => 'e' :: (if e.negative then ['-'] else []) ++ digitChars e.digits

theorem exponent?_of_endsNumeral (h : EndsNumeral rest) : exponent? rest = some (none, rest) := by
  unfold exponent?
  split
  · exact absurd rfl (h 'e' rfl).2.2.1
  · exact absurd rfl (h 'E' rfl).2.2.2
  · exact absurd rfl (h 'e' rfl).2.2.1
  · exact absurd rfl (h 'E' rfl).2.2.2
  · exact absurd rfl (h 'e' rfl).2.2.1
  · exact absurd rfl (h 'E' rfl).2.2.2
  · rfl

theorem exponentDigits?_append {negative : Bool} (hNonempty : ds ≠ []) (h : ∀ d ∈ ds, d < 10)
    (hRest : EndsDigits rest) :
    exponentDigits? negative (digitChars ds ++ rest) = some (some ⟨negative, ds⟩, rest) := by
  rw [exponentDigits?, digits_append h hRest, afterDigits_append h hRest,
    if_neg (mt List.isEmpty_iff.mp hNonempty)]

theorem exponent?_cons {c : Char} {cs : List Char} (hPlus : c ≠ '+') (hMinus : c ≠ '-') :
    exponent? ('e' :: c :: cs) = exponentDigits? false (c :: cs) := by
  rw [exponent?]
  · intro _ h
    exact hPlus (List.cons.inj h).1
  · intro _ h
    exact hMinus (List.cons.inj h).1

theorem exponent?_append {exponent : Option JsonExponent}
    (hNonempty : ∀ e ∈ exponent, e.digits ≠ []) (h : ∀ e ∈ exponent, ∀ d ∈ e.digits, d < 10)
    (hRest : EndsNumeral rest) :
    exponent? (exponentChars exponent ++ rest) = some (exponent, rest) := by
  cases exponent with
  | none => exact exponent?_of_endsNumeral hRest
  | some e =>
      obtain ⟨negative, ds⟩ := e
      replace hNonempty := hNonempty _ rfl
      replace h := h _ rfl
      cases negative with
      | true => exact exponentDigits?_append hNonempty h hRest.endsDigits
      | false =>
          rw [← exponentDigits?_append hNonempty h hRest.endsDigits]
          -- The first digit of the exponent is no sign.
          cases ds with
          | nil => contradiction
          | cons d ds =>
              have hDigit := (digitChar_spec (h d List.mem_cons_self)).1
              apply exponent?_cons
              · intro hSign
                rw [show Char.ofNat (0x30 + d) = '+' from hSign] at hDigit
                cases hDigit
              · intro hSign
                rw [show Char.ofNat (0x30 + d) = '-' from hSign] at hDigit
                cases hDigit

/-- What follows the digits before the point ends them. -/
theorem endsDigits_fractionChars {ds : List Nat} (hRest : EndsDigits rest) :
    EndsDigits (fractionChars ds ++ rest) := by
  rw [fractionChars]
  split
  · exact hRest
  · intro c hc
    cases hc
    rfl

theorem endsDigits_exponentChars {exponent : Option JsonExponent} (hRest : EndsDigits rest) :
    EndsDigits (exponentChars exponent ++ rest) := by
  cases exponent with
  | none => exact hRest
  | some e =>
      intro c hc
      cases hc
      rfl

theorem fraction?_append (h : ∀ d ∈ ds, d < 10) (hRest : EndsDigits rest)
    (hPoint : ∀ c ∈ rest.head?, c ≠ '.') :
    fraction? (fractionChars ds ++ rest) = some (ds, rest) := by
  rw [fractionChars]
  split <;> rename_i hEmpty
  · rw [List.isEmpty_iff.mp hEmpty, List.nil_append, fraction?]
    intro _ hRestEq
    rw [hRestEq] at hPoint
    exact hPoint '.' rfl rfl
  · rw [List.cons_append, fraction?, digits_append h hRest, afterDigits_append h hRest,
      if_neg hEmpty]

theorem numeralChars_eq (x : JsonNumeral) :
    numeralChars x = (if x.negative then ['-'] else []) ++ (digitChars x.whole ++
      (fractionChars x.fraction ++ exponentChars x.exponent)) := by
  simp only [numeralChars, List.append_assoc]
  rfl

/-- A numeral without its sign is read up to what ends it. -/
theorem numeral?_append {x : JsonNumeral} (h : x.IsWellFormed) (hRest : EndsNumeral rest) :
    numeral? x.negative (digitChars x.whole ++
      (fractionChars x.fraction ++ (exponentChars x.exponent ++ rest))) =
        some (.number x, rest) := by
  have hExponent : EndsDigits (exponentChars x.exponent ++ rest) :=
    endsDigits_exponentChars hRest.endsDigits
  have hPoint : ∀ c ∈ (exponentChars x.exponent ++ rest).head?, c ≠ '.' := by
    intro c hc
    cases hMark : x.exponent with
    | none =>
        rw [hMark] at hc
        exact (hRest c hc).2.1
    | some e =>
        rw [hMark] at hc
        cases hc
        decide
  rw [numeral?, whole?_append h.whole_ne_nil h.whole_eq_zero h.whole_lt
    (endsDigits_fractionChars hExponent)]
  dsimp only [bind, Option.bind]
  rw [fraction?_append h.fraction_lt hExponent hPoint]
  dsimp only
  rw [exponent?_append h.exponent_ne_nil h.exponent_lt hRest]
  rfl

end Json

end NybergRueppel
