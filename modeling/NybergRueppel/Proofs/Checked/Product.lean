import NybergRueppel.Proofs.Checked.BufferedInt
import NybergRueppel.Proofs.Checked.Montgomery

/-!
Products and small differences of buffered integers on the checking machine. Each row of a product
is added in double words to the words from its place on, and the word that it leaves over goes to a
place that no row has reached yet. A difference takes the borrow on from limb to limb, up to the
first limb that does not borrow. Both are exact for numbers of any length and sign.
-/
namespace NybergRueppel

open Checked Word

namespace Limbs

/-- Adds the product of a number and one word at place `i`. The word that is left over goes to the
place above the row. -/
def checkedAddProduct (bs out : List UInt64) (i : Nat) (w : UInt64) : Checked (List UInt64) := do
  let (out, carry) ← (List.range bs.length).foldlM (fun (out, carry) j => do
    let sum ← checkedMulAdd (← read out (i + j)) (← read bs j) w carry
    return (← write out (i + j) sum.low, sum.high)) (out, 0)
  write out (i + bs.length) carry

/-- The product of two numbers, row by row, in a list that was zero. -/
def checkedMul (as bs : List UInt64) : Checked (List UInt64) :=
  as.zipIdx.foldlM (fun out (w, i) => checkedAddProduct bs out i w)
    (List.replicate (max 1 (as.length + bs.length)) 0)

theorem checkedAddProduct_eq {bs below window : List UInt64} {i : Nat} (hBelow : below.length = i)
    (hWindow : window.length = bs.length) (w blank : UInt64) (rest : List UInt64) :
    checkedAddProduct bs (below ++ (window ++ blank :: rest)) i w =
      .ok (below ++ ((mulAdd w window bs 0).1 ++ (mulAdd w window bs 0).2 :: rest)) := by
  let inner (s : List UInt64 × UInt64) (j : Nat) : Checked (List UInt64 × UInt64) := do
    let sum ← checkedMulAdd (← read s.1 j) (← read bs j) w s.2
    return (← write s.1 j sum.low, sum.high)
  have hRow := length_mulAdd w window bs 0
  rw [hWindow, Nat.min_self] at hRow
  have hRoom : bs.length ≤ (window ++ blank :: rest).length := by
    rw [List.length_append, hWindow]
    exact Nat.le_add_right _ _
  have hAbove : (window ++ blank :: rest).drop bs.length = blank :: rest := by
    rw [← hWindow, List.drop_left]
  -- The loop runs on the words above `below` alone.
  rw [checkedAddProduct, foldlM_map_state (f := fun s : List UInt64 × UInt64 => (below ++ s.1, s.2))
    (t := (window ++ blank :: rest, 0)) (g := inner), foldlM_chain hWindow rfl hRoom ?_ 0, map_ok,
    ok_bind, ← mulAdd_eq_chain w, hAbove]
  · dsimp only
    rw [write_append_add hBelow, write_append hRow, map_ok]
  · intro j hj done carry hDone
    simp only [inner]
    have hRead : read (window ++ blank :: rest) j = .ok (window.getD j 0) := by
      rw [Checked.read, List.getElem?_append_left (hj.trans_eq hWindow.symm), ← Checked.read,
        read_eq_getD (hj.trans_eq hWindow.symm) 0]
    rw [read_append_drop hDone (Nat.le_refl j), hRead, ok_bind, read_eq_getD hj 0, ok_bind,
      checkedMulAdd_eq, ok_bind]
    rfl
  · rintro ⟨out, carry⟩ j
    simp only [inner]
    rw [read_append_add hBelow]
    cases read out j with
    | error trap => rfl
    | ok t =>
        cases read bs j with
        | error trap => rfl
        | ok b =>
            rw [ok_bind, ok_bind, ok_bind, ok_bind, checkedMulAdd_eq, ok_bind, ok_bind,
              write_append_add hBelow]
            cases write out j (Word.mulAdd t b w carry).low <;> rfl

/-- The words below the window are final, and those above it have not been written yet. -/
theorem foldlM_checkedAddProduct {bs : List UInt64} (as : List UInt64) {below window : List UInt64}
    (hWindow : window.length = bs.length) :
    (as.zipIdx below.length).foldlM (fun out (w, i) => checkedAddProduct bs out i w)
        (below ++ (window ++ List.replicate as.length 0)) =
      .ok (below ++ mulRows bs as window) := by
  induction as generalizing below window with
  | nil =>
      rw [List.length_nil, List.replicate_zero, List.append_nil]
      rfl
  | cons a as ih =>
      obtain ⟨low, next, hJoined, hNext, hRows⟩ := exists_mulRows_cons hWindow a as
      have hMoved : below ++ ((mulAdd a window bs 0).1 ++
          (mulAdd a window bs 0).2 :: List.replicate as.length 0) =
          (below ++ [low]) ++ (next ++ List.replicate as.length 0) := by
        rw [List.append_cons, hJoined, List.append_assoc, List.cons_append, List.singleton_append]
      have hPlace : (below ++ [low]).length = below.length + 1 := List.length_append
      rw [List.zipIdx_cons, List.foldlM_cons, List.length_cons, List.replicate_succ]
      dsimp only
      rw [checkedAddProduct_eq rfl hWindow, ok_bind, hMoved, ← hPlace, ih hNext, hRows,
        List.append_assoc, List.singleton_append]

theorem checkedMul_eq {as bs : List UInt64} (hPos : 1 ≤ as.length) :
    checkedMul as bs = .ok (mul as bs) := by
  have hBlank : List.replicate (max 1 (as.length + bs.length)) (0 : UInt64) =
      bs.map (fun _ => 0) ++ List.replicate as.length 0 := by
    rw [List.map_const', List.replicate_append_replicate, Nat.add_comm bs.length,
      Nat.max_eq_right (hPos.trans (Nat.le_add_right _ _))]
  rw [checkedMul, hBlank]
  have hWindow : (bs.map fun _ => (0 : UInt64)).length = bs.length := List.length_map _
  exact @foldlM_checkedAddProduct bs as [] _ hWindow

/-- Subtracts one word; the limbs above the first that does not borrow stay as they are. -/
def subWordUntil : List UInt64 → UInt64 → List UInt64 × UInt64
  | [], w => ([], w)
  | x :: xs, w =>
    if x < w then
      let (rest, w') := subWordUntil xs 1
      ((x - w) :: rest, w')
    else ((x - w) :: xs, 0)

theorem subWord_zero (xs : List UInt64) : subWord xs 0 = (xs, 0) := by
  induction xs with
  | nil => rfl
  | cons x xs ih =>
      rw [subWord, if_neg (UInt64.not_lt_zero), ih, UInt64.sub_zero]

theorem subWordUntil_eq (xs : List UInt64) (w : UInt64) : subWordUntil xs w = subWord xs w := by
  induction xs generalizing w with
  | nil => rfl
  | cons x xs ih =>
      rw [subWordUntil, subWord]
      split
      · rw [ih]
      · rw [subWord_zero]

end Limbs

namespace BufferedInt

variable {a b : BufferedInt}

/-- The product of the magnitudes. -/
def checkedMul (a b : BufferedInt) : Checked BufferedInt := do
  let buffer ← Limbs.checkedMul (← a.checkedLimbs) (← b.checkedLimbs)
  checkedNormalize { sign := .plus, size := buffer.length, buffer := buffer }

/-- The magnitude less one word, unless the word is larger. -/
def checkedSubWord? (a : BufferedInt) (w : UInt64) : Checked (Option BufferedInt) := do
  let copy ← checkedOfLimbs (← a.checkedLimbs)
  let (buffer, borrow) := Limbs.subWordUntil copy.buffer w
  if borrow ≠ 0 then return none
  else return some (← checkedNormalize { copy with buffer := buffer })

theorem checkedMul_eq (ha : a.IsNormal) (hb : b.IsNormal) : a.checkedMul b = .ok (a.mul b) := by
  have hPos : 1 ≤ a.limbs.length := ha.one_le_size.trans_eq (length_limbs ha.size_le_room).symm
  have hProduct : 1 ≤ (Limbs.mul a.limbs b.limbs).length :=
    (hPos.trans (Nat.le_add_right _ _)).trans_eq (Limbs.length_mul _ _).symm
  rw [checkedMul, checkedLimbs_eq ha.size_le_room, ok_bind, checkedLimbs_eq hb.size_le_room,
    ok_bind, Limbs.checkedMul_eq hPos, ok_bind, checkedNormalize_eq_ofSignedLimbs .plus hProduct]
  rfl

/-- The limbs of a normal number fill the room of their copy. -/
theorem IsNormal.ofLimbs_limbs (h : a.IsNormal) :
    ofLimbs a.limbs = { sign := .plus, size := a.size, buffer := a.limbs } := by
  have hLength := length_limbs h.size_le_room
  have hLimbs : limbs { sign := .plus, size := a.size, buffer := a.limbs } = a.limbs :=
    List.take_of_length_le hLength.le
  have hCopy : IsNormal { sign := .plus, size := a.size, buffer := a.limbs } := by
    refine ⟨?_, hLength.ge, ?_, fun _ => rfl⟩
    · rw [hLimbs]
      exact h.size_eq
    · rw [hLimbs, room, hLength, Nat.sub_self, List.replicate_zero, List.append_nil]
  apply (isNormal_ofSignedLimbs .plus a.limbs).eq hCopy (sign_ofLimbs a.limbs)
  · rw [magnitude_ofSignedLimbs, magnitude, hLimbs]
  · rw [room_ofSignedLimbs, room, hLength, Nat.max_eq_right h.one_le_size]

theorem checkedSubWord?_eq (ha : a.IsNormal) (w : UInt64) :
    a.checkedSubWord? w = .ok (a.subWord? w) := by
  have hLength := Limbs.length_subWord a.limbs w
  have hPos : 1 ≤ (Limbs.subWord a.limbs w).1.length := by
    rw [hLength, length_limbs ha.size_le_room]
    exact ha.one_le_size
  have hNormalize := checkedNormalize_eq_ofSignedLimbs .plus hPos
  rw [hLength, length_limbs ha.size_le_room] at hNormalize
  rw [checkedSubWord?, checkedLimbs_eq ha.size_le_room, ok_bind, checkedOfLimbs_eq, ok_bind,
    ha.ofLimbs_limbs, subWord?]
  dsimp only
  rw [Limbs.subWordUntil_eq]
  generalize Limbs.subWord a.limbs w = step at hNormalize
  obtain ⟨buffer, borrow⟩ := step
  dsimp only at hNormalize ⊢
  rw [hNormalize]
  by_cases hBorrow : borrow = 0
  · rw [if_neg (not_not_intro hBorrow), if_pos hBorrow]
    rfl
  · rw [if_pos hBorrow, if_neg hBorrow]
    rfl

/-- What is left after a word was taken away is a number of limbs alone. -/
theorem exists_ofLimbs_of_subWord?_eq {r : BufferedInt} {w : UInt64} (h : a.subWord? w = some r) :
    ∃ xs, r = ofLimbs xs := by
  rw [subWord?] at h
  generalize Limbs.subWord a.limbs w = step at h
  obtain ⟨xs, borrow⟩ := step
  dsimp only at h
  split at h
  · exact ⟨xs, (Option.some.inj h).symm⟩
  · cases h

/-- The product of any two numbers has the magnitude that the product of their magnitudes has, and a
room for both; no sum of its rows is too large for a double word, and no carry is lost. A word is
taken away from every number that is large enough, and from no other. -/
theorem product_and_difference_exact (ha : a.IsNormal) (hb : b.IsNormal) :
    (∃ p, a.mul b = p ∧ a.checkedMul b = .ok p ∧ p.isNegative = false ∧
      p.toInt = a.toInt.natAbs * b.toInt.natAbs ∧ p.room = a.size + b.size ∧ p.IsNormal) ∧
    ∀ w : UInt64,
      (w.toNat ≤ a.toInt.natAbs → ∃ r, a.subWord? w = some r ∧
        a.checkedSubWord? w = .ok (some r) ∧ r.toInt = a.toInt.natAbs - w.toNat) ∧
      (a.toInt.natAbs < w.toNat → a.subWord? w = none ∧ a.checkedSubWord? w = .ok none) := by
  rw [natAbs_toInt, natAbs_toInt]
  constructor
  · refine ⟨_, rfl, checkedMul_eq ha hb, isNegative_ofLimbs _, ?_, ?_, isNormal_ofSignedLimbs _ _⟩
    · rw [mul, toInt_ofLimbs, Limbs.toNat_mul, Nat.cast_mul, magnitude, magnitude]
    · have hOne := ha.one_le_size
      rw [mul, ofLimbs, room_ofSignedLimbs, Limbs.length_mul, length_limbs ha.size_le_room,
        length_limbs hb.size_le_room]
      omega
  · intro w
    rw [checkedSubWord?_eq ha]
    constructor
    · intro hEnough
      obtain ⟨r, hr⟩ := Option.isSome_iff_exists.mp (isSome_subWord? hEnough)
      have hSum := magnitude_subWord? hr
      refine ⟨r, hr, congrArg Except.ok hr, ?_⟩
      obtain ⟨xs, rfl⟩ := exists_ofLimbs_of_subWord?_eq hr
      rw [toInt_eq_magnitude (isNegative_ofLimbs xs)]
      omega
    · intro hLess
      have hNone := (subWord?_eq_none_iff a w).mpr hLess
      exact ⟨hNone, congrArg Except.ok hNone⟩

/-- The factors are `-(2 ^ 128 - 1)` and `2 ^ 128 - 1`, so that every double word of a row is as
large as it can be, and one is taken away from `2 ^ 128`, whose lower limbs are zero. -/
theorem product_and_difference_exact_full_words :
    let a := ofSignedLimbs .minus [-1, -1]
    let b := ofLimbs [-1, -1]
    let c := ofLimbs [0, 0, 1]
    (∃ p, a.checkedMul b = .ok p ∧ p.toInt = (2 ^ 128 - 1) * (2 ^ 128 - 1) ∧ p.room = 4) ∧
    (∃ r, c.checkedSubWord? 1 = .ok (some r) ∧ r.toInt = 2 ^ 128 - 1) ∧
    (ofWord 1).checkedSubWord? 2 = .ok none := by
  intro a b c
  have ha : a.IsNormal := isNormal_ofSignedLimbs .minus [-1, -1]
  have hb : b.IsNormal := isNormal_ofSignedLimbs .plus [-1, -1]
  have hc : c.IsNormal := isNormal_ofSignedLimbs .plus [0, 0, 1]
  have hValues : a.toInt.natAbs = 2 ^ 128 - 1 ∧ b.toInt.natAbs = 2 ^ 128 - 1 ∧
      c.toInt.natAbs = 2 ^ 128 := by decide
  obtain ⟨⟨p, -, hRun, -, hProduct, hRoom, -⟩, -⟩ := product_and_difference_exact ha hb
  obtain ⟨-, hDifferences⟩ := product_and_difference_exact hc ha
  obtain ⟨-, hSmall⟩ := product_and_difference_exact (isNormal_ofWord 1) ha
  obtain ⟨r, -, hLeft, hRest⟩ := (hDifferences 1).1 (by decide)
  rw [hValues.1, hValues.2.1] at hProduct
  rw [hValues.2.2] at hRest
  exact ⟨⟨p, hRun, hProduct.trans (by decide), hRoom.trans (by decide)⟩,
    ⟨r, hLeft, hRest.trans (by decide)⟩, ((hSmall 2).2 (by decide)).2⟩

end BufferedInt

end NybergRueppel
