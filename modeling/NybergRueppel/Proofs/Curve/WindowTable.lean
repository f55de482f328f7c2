import NybergRueppel.Curve.WindowTable
import NybergRueppel.Proofs.Curve.GroupLaw

/-!
Window tables. A look-up under masks returns the wanted entry, and a filled table holds the sixteen
multiples of its point, whatever it held before.
-/
namespace NybergRueppel

namespace WindowTable

variable {n : Nat}

/-- An entry, or the default point outside the table. -/
def entry (table : WindowTable n) (i : Nat) : JacobianPoint n :=
  table.toArray.getD i default

theorem entry_setIfInBounds (table : WindowTable n) (p : JacobianPoint n) (i j : Nat) :
    entry (table.setIfInBounds i p) j = if i = j ∧ j < tableLength then p else entry table j := by
  rw [entry, entry, Array.getD_eq_getD_getElem?, Array.getD_eq_getD_getElem?,
    Vector.getElem?_toArray, Vector.getElem?_toArray, Vector.getElem?_setIfInBounds]
  by_cases hij : i = j
  · subst hij
    by_cases hi : i < tableLength
    · simp [hi]
    · simp [hi]
  · simp [hij]

theorem blendWord_of_empty (a b : UInt64) : blendWord (-false.toUInt64) a b = a := by
  rw [blendWord, show -false.toUInt64 = (0 : UInt64) from rfl]
  simp

theorem blendWord_of_full (a b : UInt64) : blendWord (-true.toUInt64) a b = b := by
  rw [blendWord, show -true.toUInt64 = (-1 : UInt64) from rfl]
  simp

/-- A mask keeps one of two numbers whole. -/
theorem blendFixed_mask (bit : Bool) (a b : FixedNat n) :
    blendFixed (-bit.toUInt64) a b = if bit then b else a := by
  obtain ⟨xs, hxs⟩ := a
  obtain ⟨ys, hys⟩ := b
  have hLength : xs.length = ys.length := hxs.trans hys.symm
  cases bit with
  | false =>
      have hKeep : xs.zipWith (blendWord (-false.toUInt64)) ys = xs := by
        apply List.ext_getElem
        · rw [List.length_zipWith, hLength, Nat.min_self]
        · intro i _ _
          rw [List.getElem_zipWith, blendWord_of_empty]
      simp only [blendFixed, hKeep]
      rfl
  | true =>
      have hTake : xs.zipWith (blendWord (-true.toUInt64)) ys = ys := by
        apply List.ext_getElem
        · rw [List.length_zipWith, hLength, Nat.min_self]
        · intro i _ _
          rw [List.getElem_zipWith, blendWord_of_full]
      simp only [blendFixed, hTake]
      rfl

theorem blendElement_mask (bit : Bool) (a b : FieldElement n) :
    blendElement (-bit.toUInt64) a b = if bit then b else a := by
  obtain ⟨xs⟩ := a
  obtain ⟨ys⟩ := b
  rw [blendElement, ← apply_ite FieldElement.mk]
  congr 1
  apply Vector.ext
  intro i hi
  rw [Vector.getElem_zipWith, blendFixed_mask]
  cases bit <;> rfl

theorem blendPoint_mask (bit : Bool) (p q : JacobianPoint n) :
    blendPoint (-bit.toUInt64) p q =
      if bit then { q with elementLength := p.elementLength } else p := by
  rw [blendPoint, blendElement_mask, blendElement_mask, blendElement_mask]
  cases bit <;> rfl

/-- Every entry is passed over, and the wanted one is kept with the element length of the first. -/
theorem select_eq (table : WindowTable n) {digit : Nat} (hDigit : digit < tableLength) :
    table.select digit =
      { table.entry digit with elementLength := (table.entry 0).elementLength } := by
  have hPassed (count : Nat) :
      (List.range count).foldl (fun chosen i =>
        blendPoint (-(decide (i = digit)).toUInt64) chosen (table.entry i)) (table.entry 0) =
        if digit < count then
          { table.entry digit with elementLength := (table.entry 0).elementLength }
        else table.entry 0 := by
    induction count with
    | zero => rfl
    | succ count ih =>
        rw [List.range_succ, List.foldl_append, ih, List.foldl_cons, List.foldl_nil,
          blendPoint_mask]
        rcases Nat.lt_trichotomy digit count with hLess | rfl | hMore
        · have hOther : ¬decide (count = digit) = true := by
            rw [decide_eq_true_iff]
            omega
          rw [if_pos hLess, if_pos (Nat.lt_succ_of_lt hLess), if_neg hOther]
        · rw [if_neg (Nat.lt_irrefl _), if_pos (Nat.lt_succ_self _), if_pos (decide_eq_true rfl)]
        · have hOther : ¬decide (count = digit) = true := by
            rw [decide_eq_true_iff]
            omega
          rw [if_neg (Nat.not_lt.mpr hMore.le), if_neg hOther, if_neg (Nat.not_lt.mpr hMore)]
  exact (hPassed tableLength).trans (if_pos hDigit)

/-- The first entries of two tables are the same. -/
def AgreeBelow (count : Nat) (table table' : WindowTable n) : Prop :=
  ∀ i < count, table.entry i = table'.entry i

theorem AgreeBelow.set {i : Nat} {table table' : WindowTable n} (h : AgreeBelow i table table')
    (hi : i < tableLength) (p : JacobianPoint n) :
    AgreeBelow (i + 1) (table.setIfInBounds i p) (table'.setIfInBounds i p) := by
  intro j hj
  rw [entry_setIfInBounds, entry_setIfInBounds]
  split <;> rename_i hSame
  · rfl
  · exact h j (by omega)

theorem AgreeBelow.nextMultiple_eq {i : Nat} {table table' : WindowTable n}
    (h : AgreeBelow i table table') (hi : 2 ≤ i) (curve : Curve n) (p : JacobianPoint n) :
    nextMultiple curve p table i = nextMultiple curve p table' i := by
  have hHalf : table.toArray.getD (i / 2) default = table'.toArray.getD (i / 2) default :=
    h (i / 2) (by omega)
  have hBefore : table.toArray.getD (i - 1) default = table'.toArray.getD (i - 1) default :=
    h (i - 1) (by omega)
  rw [nextMultiple, nextMultiple, hHalf, hBefore]

theorem AgreeBelow.eq {table table' : WindowTable n} (h : AgreeBelow tableLength table table') :
    table = table' := by
  apply Vector.ext
  intro i hi
  have hEntry := h i hi
  rw [entry, entry, Array.getD_eq_getD_getElem?, Array.getD_eq_getD_getElem?,
    Vector.getElem?_toArray, Vector.getElem?_toArray, Vector.getElem?_eq_getElem hi,
    Vector.getElem?_eq_getElem hi] at hEntry
  exact hEntry

/-- Filling a table overwrites all of it, from entries that it has overwritten before. -/
theorem fill_eq (curve : Curve n) (p : JacobianPoint n) (table table' : WindowTable n) :
    table.fill curve p = table'.fill curve p := by
  have hNone : AgreeBelow 0 table table' := fun i hi => absurd hi (Nat.not_lt_zero i)
  have hStart := (hNone.set (by decide) curve.identity).set (by decide) p
  have hSteps (count : Nat) (hCount : 2 + count ≤ tableLength) :
      AgreeBelow (2 + count)
        ((List.range' 2 count).foldl
          (fun table i => table.setIfInBounds i (nextMultiple curve p table i))
          ((table.setIfInBounds 0 curve.identity).setIfInBounds 1 p))
        ((List.range' 2 count).foldl
          (fun table i => table.setIfInBounds i (nextMultiple curve p table i))
          ((table'.setIfInBounds 0 curve.identity).setIfInBounds 1 p)) := by
    induction count with
    | zero => exact hStart
    | succ count ih =>
        have hBefore := ih (by omega)
        rw [List.range'_concat, List.foldl_append, List.foldl_append, List.foldl_cons,
          List.foldl_nil, List.foldl_cons, List.foldl_nil, Nat.one_mul,
          hBefore.nextMultiple_eq (by omega)]
        exact hBefore.set (by omega) _
  exact (hSteps (tableLength - 2) (by decide)).eq

end WindowTable

namespace Curve

open WindowTable

variable {n : Nat} {curve : Curve n} {L : Type} [Field L] [DecidableEq L]
  {r : Realization curve.field L}

omit [DecidableEq L] in
theorem Represents.withElementLength {p : JacobianPoint n} {P : (curve.weierstrass r).Point}
    (hp : Represents r p P) (length : Nat) :
    Represents r { p with elementLength := length } P := by
  obtain ⟨⟨hx, hy, hz, hContains⟩, hPoint⟩ := hp
  exact ⟨⟨hx, hy, hz, hContains⟩, hPoint⟩

/-- The first entries of a table are the multiples of a point. -/
def HoldsMultiples (table : WindowTable n) (P : (curve.weierstrass r).Point) (count : Nat) : Prop :=
  ∀ i < count, Represents r (table.entry i) (i • P)

theorem represents_nextMultiple (hCurve : curve.IsAccepted) {p : JacobianPoint n}
    {P : (curve.weierstrass r).Point} (hp : Represents r p P) {table : WindowTable n} {i : Nat}
    (hTable : HoldsMultiples table P i) (hi : 2 ≤ i) :
    Represents r (nextMultiple curve p table i) (i • P) := by
  rw [nextMultiple]
  split <;> rename_i hEven
  · have hHalf := (hTable (i / 2) (by omega)).double hCurve
    rw [← add_nsmul, show i / 2 + i / 2 = i by omega] at hHalf
    exact hHalf
  · have hBefore := (hTable (i - 1) (by omega)).add hCurve hp
    rw [← succ_nsmul, show i - 1 + 1 = i by omega] at hBefore
    exact hBefore

/-- Setting the next entry keeps the entries before it. -/
theorem HoldsMultiples.set {table : WindowTable n} {P : (curve.weierstrass r).Point} {i : Nat}
    (hTable : HoldsMultiples table P i) (hi : i < tableLength) {q : JacobianPoint n}
    (hq : Represents r q (i • P)) : HoldsMultiples (table.setIfInBounds i q) P (i + 1) := by
  intro j hj
  rw [entry_setIfInBounds]
  split <;> rename_i hSame
  · rw [← hSame.1]
    exact hq
  · exact hTable j (by omega)

theorem holdsMultiples_fill (hCurve : curve.IsAccepted) {p : JacobianPoint n}
    {P : (curve.weierstrass r).Point} (hp : Represents r p P) (table : WindowTable n) :
    HoldsMultiples (table.fill curve p) P tableLength := by
  have hNone : HoldsMultiples table P 0 := fun i hi => absurd hi (Nat.not_lt_zero i)
  have hZero := hNone.set (by decide) ((zero_nsmul P).symm ▸ represents_identity r)
  have hOne := hZero.set (by decide) ((one_nsmul P).symm ▸ hp)
  have hSteps (count : Nat) (hCount : 2 + count ≤ tableLength) :
      HoldsMultiples ((List.range' 2 count).foldl
        (fun table i => table.setIfInBounds i (nextMultiple curve p table i))
        ((table.setIfInBounds 0 curve.identity).setIfInBounds 1 p)) P (2 + count) := by
    induction count with
    | zero => exact hOne
    | succ count ih =>
        have hBefore := ih (by omega)
        rw [List.range'_concat, List.foldl_append, List.foldl_cons, List.foldl_nil, Nat.one_mul]
        exact hBefore.set (by omega) (represents_nextMultiple hCurve hp hBefore (by omega))
  have hAll := hSteps (tableLength - 2) (by decide)
  rw [show 2 + (tableLength - 2) = tableLength by decide] at hAll
  exact hAll

/-- Filling a table from the second multiple on does not touch its first entry. -/
theorem entry_zero_foldl (curve : Curve n) (p : JacobianPoint n) {indices : List Nat}
    (hIndices : ∀ i ∈ indices, i ≠ 0) (table : WindowTable n) :
    entry (indices.foldl (fun table i => table.setIfInBounds i (nextMultiple curve p table i))
      table) 0 = table.entry 0 := by
  induction indices generalizing table with
  | nil => rfl
  | cons i indices ih =>
      rw [List.foldl_cons, ih fun j hj => hIndices j (List.mem_cons_of_mem i hj),
        entry_setIfInBounds, if_neg fun h => hIndices i List.mem_cons_self h.1]

theorem entry_zero_fill (curve : Curve n) (p : JacobianPoint n) (table : WindowTable n) :
    entry (table.fill curve p) 0 = curve.identity := by
  have hIndices : ∀ i ∈ List.range' 2 (tableLength - 2), i ≠ 0 := by
    intro i hi
    have := (List.mem_range'_1.mp hi).1
    omega
  rw [fill, entry_zero_foldl curve p hIndices, entry_setIfInBounds, if_neg (by decide),
    entry_setIfInBounds, if_pos (by decide)]

end Curve

end NybergRueppel
