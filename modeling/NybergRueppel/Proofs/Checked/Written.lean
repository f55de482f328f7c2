import Mathlib.Algebra.BigOperators.Group.List.Basic
import NybergRueppel.Parameters.Basic
import NybergRueppel.Proofs.BufferedInt.Written
import NybergRueppel.Proofs.Checked.BufferedInt
import NybergRueppel.Proofs.FixedNat.Written

/-!
Written numbers on the checking machine. A reader goes through the digits of a text from the end and
puts each of them into its place of a number, where there are zeros up to then; the room of the
number is counted in the bytes of the text, of which a digit has one.
-/
namespace NybergRueppel

open Word

namespace Hexadecimal

/-- The value of a digit; any other character is given back. -/
def valueOf (c : Char) : Except Char UInt64 :=
  match digitValue? c with
  | some v => .ok v
  | none => .error c

theorem mapM_valueOf_of_limbsOfDigits_eq {cs : List Char} {c : Char}
    (h : limbsOfDigits cs = .error c) : cs.reverse.mapM valueOf = .error c := by
  have hRead : limbsOfDigits cs = (do return Limbs.ofDigits 4 16 (← cs.reverse.mapM valueOf)) := rfl
  rw [hRead] at h
  cases hValues : cs.reverse.mapM valueOf with
  | error e =>
      rw [hValues] at h
      cases h
      rfl
  | ok vs =>
      rw [hValues] at h
      cases h

theorem length_of_limbsOfDigits_eq {cs : List Char} {limbs : List UInt64}
    (h : limbsOfDigits cs = .ok limbs) : limbs.length = (cs.length + 15) / 16 := by
  obtain ⟨xs, hSame, -, hLength⟩ := (writes_of_limbsOfDigits_eq h).limbsOfDigits_eq
  rwa [Except.ok.inj (h.symm.trans hSame)]

end Hexadecimal

open Checked Hexadecimal

/-- Sets the bits of the digit at place `i`. -/
def Limbs.checkedPutDigit (xs : List UInt64) (i : Nat) (v : UInt64) : Checked (List UInt64) := do
  let shifted ← Checked.shiftUp v (i % 16 * 4)
  update xs (i / 16) (· ||| shifted)

theorem Limbs.exists_checkedPutDigit_eq {xs : List UInt64} {i : Nat} {v : UInt64}
    (hPlace : i / 16 < xs.length) (hv : v.toNat < 16) (hBelow : toNat xs < 16 ^ i) :
    ∃ ys, checkedPutDigit xs i v = .ok ys ∧ ys.length = xs.length ∧
      toNat ys = toNat xs + 16 ^ i * v.toNat ∧ toNat ys < 16 ^ (i + 1) :=
  exists_checkedPut_eq 4 16 (by decide) rfl hPlace hv hBelow

namespace FixedNat

variable {n : Nat}

/-- Reads digits from the lowest up, the first of them into place `i`. A zero goes into any place,
and another digit only into one that the number has. -/
def checkedReadFrom (n : Nat) : List UInt64 → Nat → List Char → Checked (Option (List UInt64))
  | xs, _, [] => return some xs
  | xs, i, c :: cs =>
    match digitValue? c with
    | none => return none
    | some v => do
      if v = 0 then checkedReadFrom n xs (i + 1) cs
      else if n ≤ i / 16 then return none
      else checkedReadFrom n (← Limbs.checkedPutDigit xs i v) (i + 1) cs

/-- The result has the digits above the number that was there, unless they do not fit or are none. -/
def Reads (n : Nat) (xs : List UInt64) (i : Nat) (cs : List Char)
    (result : Option (List UInt64)) : Prop :=
  ∀ ys, result = some ys ↔ ys.length = n ∧ ∃ above, LowDigits cs above ∧
    Limbs.toNat ys = Limbs.toNat xs + 16 ^ i * above

section Reads

variable {xs : List UInt64} {i : Nat} {c : Char} {cs : List Char} {v : UInt64}

theorem reads_nil (hLength : xs.length = n) : Reads n xs i [] (some xs) := by
  intro ys
  simp only [lowDigits_nil, exists_eq_left, Nat.mul_zero, Nat.add_zero, Option.some.injEq]
  constructor
  · rintro rfl
    exact ⟨hLength, rfl⟩
  · rintro ⟨hSame, hValue⟩
    exact Limbs.eq_of_toNat_eq (hLength.trans hSame.symm) hValue.symm

theorem reads_of_digitValue?_eq_none (hDigit : digitValue? c = none) :
    Reads n xs i (c :: cs) none := by
  refine fun ys => iff_of_false (fun h => by cases h) ?_
  rintro ⟨-, above, hDigits, -⟩
  exact not_lowDigits_cons hDigit hDigits

/-- A digit other than zero does not fit above the highest limb. -/
theorem reads_of_le (hDigit : digitValue? c = some v) (hNonzero : v ≠ 0) (hHigh : n ≤ i / 16) :
    Reads n xs i (c :: cs) none := by
  refine fun ys => iff_of_false (fun h => by cases h) ?_
  rintro ⟨hys, above, hDigits, hValue⟩
  obtain ⟨rest, -, rfl⟩ := (lowDigits_cons hDigit).mp hDigits
  have hFits := Limbs.toNat_lt ys
  have hWidth : base ^ n ≤ 16 ^ i := by
    rw [base_eq, show 2 ^ 64 = 16 ^ 16 from rfl, ← pow_mul]
    exact Nat.pow_le_pow_right (by decide) (by omega)
  have hPositive : 0 < v.toNat + 16 * rest :=
    Nat.add_pos_left (Nat.pos_of_ne_zero fun h => hNonzero (UInt64.toNat_inj.mp h)) _
  have hLarge := Nat.le_mul_of_pos_right (16 ^ i) hPositive
  rw [hys] at hFits
  omega

/-- A digit that was put into its place and a zero that was not go on in the same way. -/
theorem Reads.cons {zs : List UInt64} {result : Option (List UInt64)}
    (h : Reads n zs (i + 1) cs result) (hDigit : digitValue? c = some v)
    (hPut : Limbs.toNat zs = Limbs.toNat xs + 16 ^ i * v.toNat) :
    Reads n xs i (c :: cs) result := by
  have hValue (rest : Nat) : Limbs.toNat zs + 16 ^ (i + 1) * rest =
      Limbs.toNat xs + 16 ^ i * (v.toNat + 16 * rest) := by
    rw [hPut, pow_succ]
    ring
  intro ys
  simp only [h ys, hValue, lowDigits_cons hDigit, ← exists_and_right, and_assoc]
  rw [exists_comm]
  simp only [exists_and_left, exists_eq_left]

/-- The digits that are read are those of what is above the number that was there. -/
theorem exists_checkedReadFrom_eq (hLength : xs.length = n) (hBelow : Limbs.toNat xs < 16 ^ i)
    (cs : List Char) :
    ∃ result, checkedReadFrom n xs i cs = .ok result ∧ Reads n xs i cs result := by
  induction cs generalizing xs i with
  | nil => exact ⟨some xs, rfl, reads_nil hLength⟩
  | cons c cs ih =>
      rw [checkedReadFrom]
      cases hDigit : digitValue? c with
      | none => exact ⟨none, rfl, reads_of_digitValue?_eq_none hDigit⟩
      | some v =>
          dsimp only
          split
          · rename_i hZero
            have hAbove : Limbs.toNat xs < 16 ^ (i + 1) :=
              hBelow.trans_le (Nat.pow_le_pow_right (by decide) (Nat.le_succ i))
            obtain ⟨result, hRun, hReads⟩ := ih hLength hAbove
            exact ⟨result, hRun, hReads.cons hDigit (by rw [hZero]; rfl)⟩
          · rename_i hNonzero
            split
            · rename_i hHigh
              exact ⟨none, rfl, reads_of_le hDigit hNonzero hHigh⟩
            · rename_i hPlace
              obtain ⟨zs, hPut, hzs, hValue, hAbove⟩ :=
                Limbs.exists_checkedPutDigit_eq (hLength ▸ Nat.lt_of_not_le hPlace)
                  (of_digitValue?_eq_some hDigit).1 hBelow
              obtain ⟨result, hRun, hReads⟩ := ih (hzs.trans hLength) hAbove
              rw [hPut, ok_bind]
              exact ⟨result, hRun, hReads.cons hDigit hValue⟩

end Reads

/-- Reads a trimmed hexadecimal number with an optional mark. -/
def checkedOfHex? (n : Nat) (text : String) : Checked (Option (FixedNat n)) := do
  match withoutMark (Text.trim text.toList) with
  | [] => return none
  | digits =>
    return (← checkedReadFrom n (0 : FixedNat n).limbs 0 digits.reverse).map (ofLimbs n)

theorem checkedOfHex?_eq (n : Nat) (text : String) :
    checkedOfHex? n text = .ok (ofHex? n text) := by
  rw [checkedOfHex?]
  split <;> rename_i hDigits
  · have hNone : ofHex? n text = none := by
      rw [ofHex?, hDigits]
    rw [hNone]
    rfl
  · have hEmpty : Limbs.toNat (0 : FixedNat n).limbs = 0 := toNat_zero
    obtain ⟨result, hRun, hResult⟩ := exists_checkedReadFrom_eq (0 : FixedNat n).length_limbs
      (hEmpty.trans_lt (Nat.pow_pos (n := 0) (by decide)))
      (withoutMark (Text.trim text.toList)).reverse
    rw [hRun, ok_bind, pure_eq_ok]
    congr 1
    apply Option.ext
    intro a
    have hNumeral : IsNumeral text a.toNat ↔
        LowDigits (withoutMark (Text.trim text.toList)).reverse a.toNat := by
      rw [← writes_iff_lowDigits]
      exact ⟨IsNumeral.writes, fun h => ⟨hDigits, h⟩⟩
    have hLimbs : result.map (ofLimbs n) = some a ↔ result = some a.limbs := by
      rw [Option.map_eq_some_iff]
      constructor
      · rintro ⟨ys, rfl, rfl⟩
        rw [limbs_ofLimbs ((hResult ys).mp rfl).1]
      · rintro rfl
        exact ⟨a.limbs, rfl, ofLimbs_limbs a⟩
    rw [hLimbs, ofHex?_eq_some_iff, hNumeral, hResult, hEmpty, ← toNat]
    simp only [pow_zero, Nat.one_mul, Nat.zero_add, a.length_limbs, true_and, exists_eq_right']

end FixedNat

/-- Reads a number of `n` limbs. -/
def checkedReadNumber (n : Nat) (quantity : Quantity) (text : String) :
    Checked (Except Failure (FixedNat n)) := do
  match ← FixedNat.checkedOfHex? n text with
  | some a => return .ok a
  | none => return .error (.undecodable (.badNumber quantity text))

theorem checkedReadNumber_eq (n : Nat) (quantity : Quantity) (text : String) :
    checkedReadNumber n quantity text = .ok (readNumber n quantity text) := by
  rw [checkedReadNumber, FixedNat.checkedOfHex?_eq, ok_bind, readNumber]
  cases FixedNat.ofHex? n text <;> rfl

namespace BufferedInt

/-- Reads digits from the lowest up into places that all have room. -/
def checkedReadFrom : List UInt64 → Nat → List Char → Checked (Except Char (List UInt64))
  | xs, _, [] => return .ok xs
  | xs, i, c :: cs =>
    match digitValue? c with
    | none => return .error c
    | some v => do checkedReadFrom (← Limbs.checkedPutDigit xs i v) (i + 1) cs

section ReadFrom

variable {xs : List UInt64} {i : Nat} {cs : List Char}

theorem exists_checkedReadFrom_eq_ok (hRoom : i + cs.length ≤ 16 * xs.length)
    (hBelow : Limbs.toNat xs < 16 ^ i) {above : Nat} (hDigits : LowDigits cs above) :
    ∃ ys, checkedReadFrom xs i cs = .ok (.ok ys) ∧ ys.length = xs.length ∧
      Limbs.toNat ys = Limbs.toNat xs + 16 ^ i * above := by
  induction cs generalizing xs i above with
  | nil =>
      rw [lowDigits_nil.mp hDigits]
      exact ⟨xs, rfl, rfl, rfl⟩
  | cons c cs ih =>
      rw [checkedReadFrom]
      cases hDigit : digitValue? c with
      | none => exact absurd hDigits (not_lowDigits_cons hDigit)
      | some v =>
          rw [List.length_cons] at hRoom
          obtain ⟨rest, hRest, rfl⟩ := (lowDigits_cons hDigit).mp hDigits
          obtain ⟨zs, hPut, hzs, hValue, hNext⟩ := Limbs.exists_checkedPutDigit_eq (by omega)
            (of_digitValue?_eq_some hDigit).1 hBelow
          have hRoomAbove : i + 1 + cs.length ≤ 16 * zs.length := by omega
          obtain ⟨ys, hRun, hys, hSum⟩ := ih hRoomAbove hNext hRest
          refine ⟨ys, ?_, hys.trans hzs, ?_⟩
          · dsimp only
            rw [hPut, ok_bind, hRun]
          · rw [hSum, hValue, pow_succ]
            ring

theorem checkedReadFrom_eq_error (hRoom : i + cs.length ≤ 16 * xs.length)
    (hBelow : Limbs.toNat xs < 16 ^ i) {c : Char} (h : cs.mapM valueOf = .error c) :
    checkedReadFrom xs i cs = .ok (.error c) := by
  induction cs generalizing xs i with
  | nil => cases h
  | cons d cs ih =>
      rw [List.mapM_cons, valueOf] at h
      rw [checkedReadFrom]
      cases hDigit : digitValue? d with
      | none =>
          rw [hDigit] at h
          cases h
          rfl
      | some v =>
          rw [List.length_cons] at hRoom
          have hPlace : i / 16 < xs.length := by omega
          obtain ⟨zs, hPut, hzs, -, hNext⟩ :=
            Limbs.exists_checkedPutDigit_eq hPlace (of_digitValue?_eq_some hDigit).1 hBelow
          dsimp only
          rw [hPut, ok_bind]
          apply ih (by omega) hNext
          rw [hDigit] at h
          cases hRest : cs.mapM valueOf with
          | error e =>
              rw [hRest] at h
              cases h
              rfl
          | ok vs =>
              rw [hRest] at h
              cases h

end ReadFrom

/-- The bytes of a text. -/
def byteCount (cs : List Char) : Nat :=
  (cs.map Char.utf8Size).sum

theorem length_le_byteCount (cs : List Char) : cs.length ≤ byteCount cs := by
  have hSum := List.length_le_sum_of_one_le (cs.map Char.utf8Size) (by
    intro size hSize
    obtain ⟨c, -, rfl⟩ := List.mem_map.mp hSize
    exact c.utf8Size_pos)
  rwa [List.length_map] at hSum

/-- A digit has one byte. -/
theorem byteCount_of_writes {cs : List Char} {value : Nat} (h : Writes cs value) :
    byteCount cs = cs.length := by
  have hAll : ∀ size ∈ cs.map Char.utf8Size, size = 1 := by
    intro size hSize
    obtain ⟨c, hc, rfl⟩ := List.mem_map.mp hSize
    obtain ⟨v, hv⟩ := h.digitValue?_eq hc
    have hAscii := toNat_lt_of_digitValue?_eq_some hv
    rw [Char.utf8Size_eq_one_iff, UInt32.le_iff_toNat_le]
    exact Nat.le_of_lt_succ hAscii
  rw [byteCount, List.sum_eq_card_nsmul _ 1 hAll, List.length_map, smul_eq_mul, Nat.mul_one]

/-- The places that the bytes of a text need have room for its digits. -/
theorem checkedReadFrom_eq_limbsOfDigits {cs : List Char} (hcs : 1 ≤ cs.length) :
    checkedReadFrom (List.replicate (max 1 ((byteCount cs + 15) / 16)) 0) 0 cs.reverse =
      .ok (limbsOfDigits cs) := by
  have hBytes := length_le_byteCount cs
  have hRoom : 0 + cs.reverse.length ≤
      16 * (List.replicate (max 1 ((byteCount cs + 15) / 16)) (0 : UInt64)).length := by
    rw [List.length_reverse, List.length_replicate]
    omega
  have hEmpty (room : Nat) : Limbs.toNat (List.replicate room 0) < 16 ^ 0 := by
    rw [Limbs.toNat_replicate_zero]
    exact Nat.one_pos
  cases hRead : limbsOfDigits cs with
  | error c =>
      exact checkedReadFrom_eq_error hRoom (hEmpty _) (mapM_valueOf_of_limbsOfDigits_eq hRead)
  | ok limbs =>
      have hWrites := writes_of_limbsOfDigits_eq hRead
      obtain ⟨ys, hRun, hys, hValue⟩ :=
        exists_checkedReadFrom_eq_ok hRoom (hEmpty _) (writes_iff_lowDigits.mp hWrites)
      have hCount : (List.replicate (max 1 ((byteCount cs + 15) / 16)) (0 : UInt64)).length =
          limbs.length := by
        rw [List.length_replicate, byteCount_of_writes hWrites, length_of_limbsOfDigits_eq hRead]
        omega
      rw [Limbs.toNat_replicate_zero, pow_zero, Nat.one_mul, Nat.zero_add] at hValue
      rw [hRun, Limbs.eq_of_toNat_eq (hys.trans hCount) hValue]

/-- Reads a trimmed hexadecimal number with an optional minus sign and an optional mark after it. -/
def checkedOfHex (text : String) : Checked (Except Failure BufferedInt) := do
  let trimmed := Text.trim text.toList
  let (sign, rest) := splitSign trimmed
  match withoutMark rest with
  | [] => return .error (.undecodable (.emptyNumber (String.ofList trimmed)))
  | digits =>
    let room := max 1 ((byteCount digits + 15) / 16)
    match ← checkedReadFrom (List.replicate room 0) 0 digits.reverse with
    | .error c => return .error (.undecodable (.invalidDigit c))
    | .ok buffer =>
      return .ok (← checkedNormalize { sign := sign, size := buffer.length, buffer := buffer })

theorem checkedOfHex_eq (text : String) : checkedOfHex text = .ok (ofHex text) := by
  rw [checkedOfHex, ofHex]
  generalize Text.trim text.toList = trimmed
  obtain ⟨sign, rest⟩ := splitSign trimmed
  dsimp only
  generalize withoutMark rest = digits
  cases digits with
  | nil => rfl
  | cons d ds =>
      dsimp only
      rw [checkedReadFrom_eq_limbsOfDigits (Nat.le_add_left 1 _), ok_bind]
      cases hRead : limbsOfDigits (d :: ds) with
      | error c => rfl
      | ok limbs =>
          have hPos : 1 ≤ limbs.length := by
            rw [length_of_limbsOfDigits_eq hRead, List.length_cons]
            omega
          dsimp only
          rw [checkedNormalize_eq_ofSignedLimbs sign hPos]
          rfl

/-- The highest significant word of a normal number is not zero, unless it is the only one. -/
theorem IsNormal.eq_nil_of_limbs_eq {a : BufferedInt} (h : a.IsNormal) (below : List UInt64)
    (hLimbs : a.limbs = below ++ [0]) : below = [] := by
  by_contra hBelow
  have hPos : 1 ≤ below.length := List.length_pos_iff.mpr hBelow
  have hSize := h.size_eq
  have hLength := length_limbs h.size_le_room
  have hFew : Limbs.significant below ≤ below.length :=
    (Limbs.significant_le_iff below hPos).mpr (Limbs.toNat_lt below)
  rw [hLimbs, Limbs.significant_concat hPos, if_pos rfl] at hSize
  rw [hLimbs, List.length_append, List.length_singleton] at hLength
  omega

/-- The sign and the upper-case digits: those of the highest significant word without leading zeros,
and all of those of the words below it. -/
def checkedToHex (a : BufferedInt) : Checked String := do
  let limbs ← a.checkedLimbs
  let last ← difference limbs.length 1
  let top ← read limbs last
  let below ← slice limbs 0 last
  return String.ofList (a.signText ++ (word .upper top ++ below.reverse.flatMap (fullWord .upper)))

theorem checkedToHex_eq {a : BufferedInt} (h : a.IsNormal) : a.checkedToHex = .ok a.toHex := by
  have hLength := length_limbs h.size_le_room
  have hPos := h.one_le_size
  have hTop := h.eq_nil_of_limbs_eq
  rw [checkedToHex, checkedLimbs_eq h.size_le_room, ok_bind, toHex, digits, Hexadecimal.limbs]
  generalize a.limbs = limbs at hLength hTop
  obtain rfl | ⟨below, top, rfl⟩ := limbs.eq_nil_or_concat
  · rw [List.length_nil] at hLength
    omega
  · rw [List.concat_eq_append] at hTop ⊢
    have hLast : difference (below ++ [top]).length 1 = .ok below.length := by
      rw [List.length_append, List.length_singleton, difference_eq_ok (Nat.le_add_left 1 _)]
      rfl
    have hRead : Checked.read (below ++ [top]) below.length = .ok top := by
      rw [Checked.read, List.getElem?_concat_length]
    have hBelow : slice (below ++ [top]) 0 below.length = .ok below := by
      rw [slice_zero (by rw [List.length_append]; exact Nat.le_add_right _ _), List.take_left]
    rw [hLast, ok_bind, hRead, ok_bind, hBelow, ok_bind, List.reverse_append,
      List.reverse_singleton, List.singleton_append, descending]
    split <;> rename_i hZero
    · obtain rfl := beq_iff_eq.mp hZero
      obtain rfl := hTop below rfl
      rw [show word .upper 0 = descending .upper [].reverse by decide]
      rfl
    · rfl

end BufferedInt

end NybergRueppel
