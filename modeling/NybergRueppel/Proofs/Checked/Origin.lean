import NybergRueppel.Proofs.Checked.Bytes
import NybergRueppel.Proofs.Checked.Product
import NybergRueppel.Proofs.Checked.Written

/-!
How buffered integers come about. Each constructor and each operation, carried out on the checking
machine on numbers that came about before, gives a normal number; there are no other numbers, and
every normal number comes about in this way. So the size, the sign and the words above the size of a
number say nothing that its value does not, and a store either changes all of a number or nothing.
-/
namespace NybergRueppel.BufferedInt

open Checked Word

variable {n : Nat} {a b : BufferedInt}

/-- Reads bytes in big-endian order into places that all have room. -/
def checkedOfBytes (bytes : List UInt8) : Checked BufferedInt := do
  let words := max 1 ((bytes.length + 7) / 8)
  let buffer ← Limbs.checkedPutAll 8 8 (withRoom words).buffer 0 (bytes.reverse.map UInt8.toUInt64)
  checkedNormalize { sign := .plus, size := words, buffer := buffer }

theorem checkedOfBytes_eq (bytes : List UInt8) : checkedOfBytes bytes = .ok (ofBytes bytes) := by
  let words := max 1 ((bytes.length + 7) / 8)
  let digits := bytes.reverse.map UInt8.toUInt64
  have hWords : 1 ≤ words := Nat.le_max_left 1 _
  have hEmpty : (withRoom words).buffer.length = words := by
    rw [withRoom, List.length_replicate, Nat.max_eq_right hWords]
  have hBelow : Limbs.toNat (withRoom words).buffer = 0 := Limbs.toNat_replicate_zero _
  have hRoom : 0 + digits.length ≤ 8 * (withRoom words).buffer.length := by
    rw [hEmpty, List.length_map, List.length_reverse]
    omega
  have hBytes : ∀ v ∈ digits, v.toNat < 2 ^ 8 := by
    intro v hv
    obtain ⟨b, -, rfl⟩ := List.mem_map.mp hv
    exact b.toNat_lt
  obtain ⟨ys, hRun, hLength, hValue⟩ := Limbs.exists_checkedPutAll_eq 8 8 (by decide) rfl hRoom
    hBytes (hBelow.trans_lt Nat.one_pos)
  have hSize : ys.length = words := hLength.trans hEmpty
  rw [hBelow, pow_zero, Nat.one_mul, Nat.zero_add, List.map_map] at hValue
  have hNormalize := checkedNormalize_eq_ofSignedLimbs .plus (hWords.trans_eq hSize.symm)
  rw [hSize] at hNormalize
  rw [checkedOfBytes, hRun, ok_bind, hNormalize, ofBytes]
  congr 1
  apply (isNormal_ofSignedLimbs .plus ys).eq (isNormal_ofSignedLimbs .plus _)
  · exact (sign_ofLimbs ys).trans (sign_ofLimbs _).symm
  · rw [magnitude_ofSignedLimbs, magnitude_ofSignedLimbs, Limbs.toNat_ofBytes]
    exact hValue
  · rw [room_ofSignedLimbs, room_ofSignedLimbs, hSize, Limbs.ofBytes,
      Limbs.length_ofDigits 8 (by decide), List.length_map, List.length_reverse]
    exact Nat.max_eq_right hWords

def checkedNeg (a : BufferedInt) : Checked BufferedInt :=
  checkedNormalize { a with sign := a.sign.opposite }

theorem checkedNeg_eq (h : a.IsNormal) : a.checkedNeg = .ok a.neg :=
  checkedNormalize_eq h.one_le_size h.size_le_room

/-- The position after the highest set bit of the magnitude. -/
def checkedBitLength (a : BufferedInt) : Checked Nat := do
  let last ← difference a.size 1
  let top ← read a.buffer last
  return last * 64 + (← difference 64 (Word.leadingZeros top))

theorem checkedBitLength_eq (h : a.IsNormal) : a.checkedBitLength = .ok a.bitLength := by
  have hOne := h.one_le_size
  have hRoom : a.size ≤ a.buffer.length := h.size_le_room
  have hShort := (Word.bitLength_le_iff (a.buffer.getD (a.size - 1) 0) 64).mpr (UInt64.toNat_lt _)
  rw [checkedBitLength, difference_eq_ok hOne, ok_bind, read_eq_getD (by omega) 0, ok_bind,
    Word.leadingZeros, difference_eq_ok (Nat.sub_le _ _), ok_bind, Nat.sub_sub_self hShort]
  rfl

/-- The highest significant word decides the length, as it is not zero unless the number is. -/
theorem IsNormal.bitLength_eq (h : a.IsNormal) : a.bitLength = Limbs.bitLength a.limbs := by
  have hLength := length_limbs h.size_le_room
  have hTop := h.eq_nil_of_limbs_eq
  have hRead : a.buffer.getD (a.size - 1) 0 = a.limbs.getD (a.size - 1) 0 := by
    have hOne := h.one_le_size
    rw [limbs, List.getD_eq_getElem?_getD, List.getD_eq_getElem?_getD, List.getElem?_take_of_lt]
    omega
  rw [bitLength, hRead]
  generalize a.limbs = limbs at hLength hTop
  obtain rfl | ⟨below, top, rfl⟩ := limbs.eq_nil_or_concat
  · rw [← hLength]
    rfl
  · rw [List.concat_eq_append] at hLength hTop ⊢
    rw [← hLength, List.length_append, List.length_singleton, Nat.add_sub_cancel,
      Limbs.bitLength_concat, List.getD_append_right _ _ _ _ (Nat.le_refl _), Nat.sub_self,
      List.getD_cons_zero]
    split <;> rename_i hZero
    · obtain rfl := hZero
      rw [hTop below rfl]
      rfl
    · rfl

theorem IsNormal.isLeast_bitLength (h : a.IsNormal) :
    IsLeast {L | a.magnitude < 2 ^ L} a.bitLength := by
  rw [h.bitLength_eq]
  exact ⟨(Limbs.bitLength_le_iff a.limbs _).mp (Nat.le_refl _),
    fun L hL => (Limbs.bitLength_le_iff a.limbs L).mpr hL⟩

/-- True if two numbers have the same sign and the same significant words. -/
def checkedSameNumber (a b : BufferedInt) : Checked Bool := do
  if a.sign = b.sign then return (← a.checkedLimbs) == (← b.checkedLimbs) else return false

theorem checkedSameNumber_eq (ha : a.IsNormal) (hb : b.IsNormal) :
    a.checkedSameNumber b = .ok (a.sameNumber b) := by
  rw [checkedSameNumber, checkedLimbs_eq ha.size_le_room, ok_bind, checkedLimbs_eq hb.size_le_room,
    ok_bind, sameNumber]
  by_cases hSign : a.sign = b.sign <;> simp [hSign]

/-- Stores a number that is not negative into the number that is there, field by field. -/
def storeUnsigned (limbs : List UInt64) : StateT BufferedInt Checked (Except Failure Unit) := do
  let length ← Limbs.checkedTrim limbs limbs.length
  if (← get).room < length then return .error .bufferTooSmall
  modify fun a => { a with buffer := a.buffer.map fun _ => 0 }
  let stored ← overwrite (← get).buffer (← slice limbs 0 length)
  modify fun a => { a with buffer := stored }
  modify fun a => { a with size := max 1 length }
  modify fun a => { a with sign := .plus }
  set (← checkedNormalize (← get))
  return .ok ()

/-- What a store leaves behind: the new number, or the old one if it failed. -/
def afterStore (a : BufferedInt) : Except Failure BufferedInt → Except Failure Unit × BufferedInt
  | .ok r => (.ok (), r)
  | .error failure => (.error failure, a)

theorem run_storeUnsigned (hRoom : 1 ≤ a.room) (limbs : List UInt64) :
    (storeUnsigned limbs).run a = .ok (a.afterStore (a.setUnsigned limbs)) := by
  have hSame : (storeUnsigned limbs).run a = a.afterStore <$> a.checkedSetUnsigned limbs := by
    rw [storeUnsigned, checkedSetUnsigned, map_bind]
    simp only [StateT.run_bind, StateT.run_get, StateT.run_monadLift, bind_assoc, pure_bind]
    refine bind_congr fun length => ?_
    split
    · rfl
    · simp only [StateT.run_bind, StateT.run_get, StateT.run_monadLift, StateT.run_modify,
        StateT.run_set, bind_assoc, pure_bind, map_bind]
      rfl
  rw [hSame, checkedSetUnsigned_eq hRoom, map_ok]

/-- How a number comes about: from nothing by a constructor, or by an operation on numbers that came
about before. -/
inductive Origin where
  | withRoom (words : Nat)
  | ofWord (w : UInt64)
  | ofLimbs (limbs : List UInt64)
  | ofFixed (n : Nat) (a : FixedNat n)
  | ofBytes (bytes : List UInt8)
  | ofHex (text : String)
  | neg (origin : Origin)
  | withMinRoom (origin : Origin) (words : Nat)
  | normalize (origin : Origin)
  | setUnsigned (origin : Origin) (limbs : List UInt64)
  | mul (first second : Origin)
  | subWord (origin : Origin) (w : UInt64)

namespace Origin

/-- The number that comes about, unless a text is no number or a difference would be negative. A
store that fails leaves the number that was there. -/
def number? : Origin → Option BufferedInt
  | withRoom words => some (.withRoom words)
  | ofWord w => some (.ofWord w)
  | ofLimbs limbs => some (.ofLimbs limbs)
  | ofFixed _ a => some (.ofFixed a)
  | ofBytes bytes => some (.ofBytes bytes)
  | ofHex text => (BufferedInt.ofHex text).toOption
  | neg origin => origin.number?.map .neg
  | withMinRoom origin words => origin.number?.map (·.withMinRoom words)
  | normalize origin => origin.number?.map .normalize
  | setUnsigned origin limbs =>
    origin.number?.map fun a => (a.afterStore (a.setUnsigned limbs)).2
  | mul first second => do second.number?.map (← first.number?).mul
  | subWord origin w => do (← origin.number?).subWord? w

/-- The number on the checking machine. -/
def checkedNumber? : Origin → Checked (Option BufferedInt)
  | withRoom words => return some (.withRoom words)
  | ofWord w => return some (← checkedOfLimbs [w])
  | ofLimbs limbs => return some (← checkedOfLimbs limbs)
  | ofFixed _ a => return some (← checkedOfFixed a)
  | ofBytes bytes => return some (← checkedOfBytes bytes)
  | ofHex text => return (← checkedOfHex text).toOption
  | neg origin => do (← origin.checkedNumber?).mapM checkedNeg
  | withMinRoom origin words => do (← origin.checkedNumber?).mapM (pure <| ·.withMinRoom words)
  | normalize origin => do (← origin.checkedNumber?).mapM checkedNormalize
  | setUnsigned origin limbs => do
    (← origin.checkedNumber?).mapM fun a => return (← (storeUnsigned limbs).run a).2
  | mul first second => do
    let a? ← first.checkedNumber?
    let b? ← second.checkedNumber?
    match a? with
    | some a => b?.mapM a.checkedMul
    | none => return none
  | subWord origin w => do
    match ← origin.checkedNumber? with
    | some a => a.checkedSubWord? w
    | none => return none

end Origin

section Steps

variable {step : BufferedInt → BufferedInt} {checkedStep : BufferedInt → Checked BufferedInt}
  {a? : Option BufferedInt}

/-- A constructor that does not stop and makes a normal number. -/
theorem return_some_eq {run : Checked BufferedInt} (hRun : run = .ok a) (h : a.IsNormal) :
    (return some (← run)) = Except.ok (some a) ∧ ∀ r ∈ some a, r.IsNormal := by
  subst hRun
  refine ⟨rfl, ?_⟩
  rintro r ⟨⟩
  exact h

/-- A step that does not stop at a normal number and keeps it normal. -/
theorem mapM_eq_ok_map (hNormal : ∀ a ∈ a?, a.IsNormal)
    (hStep : ∀ a, a.IsNormal → checkedStep a = .ok (step a) ∧ (step a).IsNormal) :
    a?.mapM checkedStep = .ok (a?.map step) ∧ ∀ r ∈ a?.map step, r.IsNormal := by
  cases a? with
  | none => exact ⟨rfl, nofun⟩
  | some a =>
      obtain ⟨hRun, hResult⟩ := hStep a (hNormal a rfl)
      rw [Option.mapM_some, hRun]
      refine ⟨rfl, ?_⟩
      rintro r ⟨⟩
      exact hResult

end Steps

theorem IsNormal.afterStore (h : a.IsNormal) (limbs : List UInt64) :
    (a.afterStore (a.setUnsigned limbs)).2.IsNormal := by
  cases hStore : a.setUnsigned limbs with
  | error failure => exact h
  | ok r => exact (of_setUnsigned_eq h.one_le_room hStore).isNormal

/-- Every step on normal numbers gives a normal number, and none of them stops. -/
theorem Origin.checkedNumber?_eq (origin : Origin) :
    origin.checkedNumber? = .ok origin.number? ∧ ∀ a ∈ origin.number?, a.IsNormal := by
  induction origin with
  | withRoom words =>
      have hRun : pure (.withRoom words) = (.ok (.withRoom words) : Checked BufferedInt) := rfl
      exact return_some_eq hRun (isNormal_withRoom words)
  | ofWord w => exact return_some_eq (checkedOfLimbs_eq [w]) (isNormal_ofWord w)
  | ofLimbs limbs =>
      exact return_some_eq (checkedOfLimbs_eq limbs) (isNormal_ofSignedLimbs .plus limbs)
  | ofFixed n v => exact return_some_eq (checkedOfFixed_eq v) (isNormal_ofFixed v)
  | ofBytes bytes => exact return_some_eq (checkedOfBytes_eq bytes) (isNormal_ofSignedLimbs .plus _)
  | ofHex text =>
      rw [checkedNumber?, checkedOfHex_eq, number?]
      refine ⟨rfl, ?_⟩
      cases hRead : BufferedInt.ofHex text with
      | error failure => exact nofun
      | ok r =>
          rintro a ⟨⟩
          exact isNormal_of_ofHex_eq hRead
  | neg origin ih =>
      rw [checkedNumber?, ih.1]
      exact mapM_eq_ok_map ih.2 fun a h => ⟨checkedNeg_eq h, h.neg⟩
  | withMinRoom origin words ih =>
      rw [checkedNumber?, ih.1]
      exact mapM_eq_ok_map ih.2 fun a h => ⟨rfl, h.withMinRoom words⟩
  | normalize origin ih =>
      rw [checkedNumber?, ih.1]
      exact mapM_eq_ok_map ih.2 fun a h => ⟨checkedNormalize_eq h.one_le_size h.size_le_room,
        isNormal_normalize h.one_le_size h.size_le_room⟩
  | setUnsigned origin limbs ih =>
      rw [checkedNumber?, ih.1]
      refine mapM_eq_ok_map ih.2 fun a h => ⟨?_, h.afterStore limbs⟩
      rw [run_storeUnsigned h.one_le_room, ok_bind, pure_eq_ok]
  | mul first second ihFirst ihSecond =>
      obtain ⟨hFirst, hFirstNormal⟩ := ihFirst
      obtain ⟨hSecond, hSecondNormal⟩ := ihSecond
      rw [checkedNumber?, hFirst, ok_bind, hSecond, ok_bind, number?]
      generalize first.number? = a? at hFirstNormal
      generalize second.number? = b? at hSecondNormal
      cases a? with
      | none => exact ⟨rfl, nofun⟩
      | some a =>
          exact mapM_eq_ok_map hSecondNormal fun b h =>
            ⟨checkedMul_eq (hFirstNormal a rfl) h, isNormal_ofSignedLimbs .plus _⟩
  | subWord origin w ih =>
      obtain ⟨hRun, hNormal⟩ := ih
      rw [checkedNumber?, hRun, ok_bind, number?]
      generalize origin.number? = a? at hNormal
      cases a? with
      | none => exact ⟨rfl, nofun⟩
      | some a =>
          refine ⟨checkedSubWord?_eq (hNormal a rfl) w, fun r hr => ?_⟩
          obtain ⟨xs, rfl⟩ := exists_ofLimbs_of_subWord?_eq hr
          exact isNormal_ofSignedLimbs .plus xs

theorem Origin.isNormal {origin : Origin} (h : origin.number? = some a) : a.IsNormal :=
  origin.checkedNumber?_eq.2 a h

/-- A normal number is made from its limbs, its sign and its room. -/
theorem IsNormal.exists_origin (h : a.IsNormal) : ∃ origin : Origin, origin.number? = some a := by
  have hLimbs : (ofLimbs a.limbs).IsNormal := isNormal_ofSignedLimbs .plus a.limbs
  have hMagnitude : (ofLimbs a.limbs).magnitude = a.magnitude := magnitude_ofLimbs a.limbs
  have hRoom : (ofLimbs a.limbs).room ≤ a.room := by
    rw [ofLimbs, room_ofSignedLimbs, length_limbs h.size_le_room]
    exact Nat.max_le.mpr ⟨h.one_le_room, h.size_le_room⟩
  have hSigned : ∃ (origin : Origin) (r : BufferedInt), origin.number? = some r ∧ r.IsNormal ∧
      r.sign = a.sign ∧ r.magnitude = a.magnitude ∧ r.room ≤ a.room := by
    cases hSign : a.sign with
    | plus => exact ⟨.ofLimbs a.limbs, _, rfl, hLimbs, sign_ofLimbs a.limbs, hMagnitude, hRoom⟩
    | minus =>
        have hNonzero : (ofLimbs a.limbs).magnitude ≠ 0 := fun hZero => by
          have hPlus := h.sign_eq_plus (hMagnitude.symm.trans hZero)
          rw [hSign] at hPlus
          cases hPlus
        refine ⟨.neg (.ofLimbs a.limbs), _, rfl, hLimbs.neg, ?_,
          hLimbs.magnitude_neg.trans hMagnitude, hLimbs.room_neg.trans_le hRoom⟩
        rw [hLimbs.sign_neg hNonzero, sign_ofLimbs]
        rfl
  obtain ⟨origin, r, hOrigin, hr, hSign, hSame, hFits⟩ := hSigned
  refine ⟨.withMinRoom origin a.room, ?_⟩
  have hEqual : r.withMinRoom a.room = a := by
    apply (hr.withMinRoom a.room).eq h hSign
    · rw [magnitude, limbs_withMinRoom hr.size_le_room]
      exact hSame
    · rw [room_withMinRoom]
      exact Nat.max_eq_right hFits
  rw [Origin.number?, hOrigin, Option.map_some, hEqual]

/-- No call on numbers stops, and whatever numbers come about are normal: the size is the least that
holds the value, the words from there on are zero, and zero is not negative. So two numbers are the
same exactly if their values are, lengths and comparisons are those of the absolute value, and a
store fails exactly if the room is too small, which leaves everything as it was. -/
theorem numbers_stay_normal (origin : Origin) :
    origin.checkedNumber? = .ok origin.number? ∧ ∀ a, origin.number? = some a →
      (1 ≤ a.size ∧ a.size ≤ a.room ∧
        IsLeast {size | 1 ≤ size ∧ a.toInt.natAbs < base ^ size} a.size ∧
        (∀ i, a.size ≤ i → a.buffer.getD i 0 = 0) ∧ (a.toInt = 0 → a.sign = .plus)) ∧
      (a.normalize = a ∧ a.checkedNormalize = .ok a) ∧
      (∀ (other : Origin) (b : BufferedInt), other.number? = some b →
        a.checkedSameNumber b = .ok (a.sameNumber b) ∧
        (a.sameNumber b = true ↔ a.toInt = b.toInt)) ∧
      (a.checkedBitLength = .ok a.bitLength ∧ IsLeast {L | a.toInt.natAbs < 2 ^ L} a.bitLength) ∧
      (∀ (n : Nat) (b : FixedNat n), a.checkedCompareMagnitude b = .ok (a.compareMagnitude b) ∧
        a.compareMagnitude b = compare a.toInt.natAbs b.toNat) ∧
      ∀ limbs,
        (base ^ a.room ≤ Limbs.toNat limbs → a.setUnsigned limbs = .error .bufferTooSmall ∧
          (storeUnsigned limbs).run a = .ok (.error .bufferTooSmall, a)) ∧
        (Limbs.toNat limbs < base ^ a.room → ∃ r, a.setUnsigned limbs = .ok r ∧
          (storeUnsigned limbs).run a = .ok (.ok (), r) ∧ r.toInt = Limbs.toNat limbs ∧
          r.room = a.room) := by
  refine ⟨origin.checkedNumber?_eq.1, fun a hOrigin => ?_⟩
  have h : a.IsNormal := Origin.isNormal hOrigin
  have hNormalize := checkedNormalize_eq h.one_le_size h.size_le_room
  rw [h.normalize_eq] at hNormalize
  rw [natAbs_toInt]
  refine ⟨⟨h.one_le_size, h.size_le_room, h.isLeast_size, fun i => h.getD_buffer_eq_zero, ?_⟩,
    ⟨h.normalize_eq, hNormalize⟩,
    fun other b hOther => ⟨checkedSameNumber_eq h (Origin.isNormal hOther),
      h.sameNumber_iff (Origin.isNormal hOther)⟩,
    ⟨checkedBitLength_eq h, h.isLeast_bitLength⟩,
    fun n b => ⟨checkedCompareMagnitude_eq h.size_le_room b, compareMagnitude_eq a b⟩,
    fun limbs => ⟨fun hLarge => ?_, fun hFits => ?_⟩⟩
  · intro hZero
    apply h.sign_eq_plus
    rw [← natAbs_toInt, hZero]
    rfl
  · have hError := (setUnsigned_eq_error_iff h.one_le_room).mpr hLarge
    rw [run_storeUnsigned h.one_le_room, hError]
    exact ⟨rfl, rfl⟩
  · obtain ⟨r, hStored, hIsStored⟩ := setUnsigned_eq_ok h.one_le_room hFits
    rw [run_storeUnsigned h.one_le_room, hStored]
    exact ⟨r, rfl, rfl, hIsStored.toInt_eq, hIsStored.room_eq⟩

/-- A store of four words into the room of three fails and leaves the number `-5`, whose zeros above
do not tell it apart from one without room. -/
theorem numbers_stay_normal_after_failed_store :
    let origin : Origin := .setUnsigned (.withMinRoom (.neg (.ofLimbs [5, 0])) 3) [1, 2, 3, 4]
    let same : Origin := .neg (.ofWord 5)
    ∃ a b, origin.checkedNumber? = .ok (some a) ∧ same.checkedNumber? = .ok (some b) ∧
      a.sameNumber b = true ∧ a.toInt = -5 ∧ a.size = 1 ∧ a.room = 3 := by
  intro origin same
  let a : BufferedInt := ⟨.minus, 1, [5, 0, 0]⟩
  let b : BufferedInt := ⟨.minus, 1, [5]⟩
  have ha : origin.number? = some a := by decide
  have hb : same.number? = some b := by decide
  obtain ⟨hRun, hNumbers⟩ := numbers_stay_normal origin
  obtain ⟨-, -, hSame, -⟩ := hNumbers a ha
  refine ⟨a, b, hRun.trans (congrArg Except.ok ha), ?_, (hSame same b hb).2.mpr (by decide),
    by decide, rfl, rfl⟩
  exact (numbers_stay_normal same).1.trans (congrArg Except.ok hb)

end NybergRueppel.BufferedInt
