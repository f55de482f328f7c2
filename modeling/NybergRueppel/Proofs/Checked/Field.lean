import NybergRueppel.Proofs.Checked.Montgomery
import NybergRueppel.Proofs.Field.Element

/-!
Coordinate fields on the checking machine. The coefficients of an element are read and written one
by one, and a product is formed in a longer list of coefficients; the degree of a field that was
built keeps every place in range.
-/
namespace NybergRueppel

open Checked

namespace FieldElement

variable {n : Nat}

/-- The element with the given coefficients. -/
def ofList (cs : List (FixedNat n)) : FieldElement n :=
  ofCoeffs maxExtensionDegree fun i => cs.getD i 0

/-- The coefficients as they are kept, those above the degree of the field included. -/
def toList (a : FieldElement n) : List (FixedNat n) :=
  a.coeffs.toList

@[simp]
theorem length_toList (a : FieldElement n) : a.toList.length = maxExtensionDegree :=
  a.coeffs.length_toList

theorem getD_toList (a : FieldElement n) (i : Nat) : a.toList.getD i 0 = a.coeff i := by
  rw [toList, coeff, List.getD_eq_getElem?_getD, Array.getD_eq_getD_getElem?,
    Vector.getElem?_toArray, Vector.getElem?_toList]

theorem coeff_ofList {cs : List (FixedNat n)} (h : cs.length = maxExtensionDegree) (i : Nat) :
    (ofList cs).coeff i = cs.getD i 0 := by
  rw [ofList, coeff_ofCoeffs]
  split <;> rename_i hi
  · rfl
  · rw [List.getD_eq_getElem?_getD, List.getElem?_eq_none (by omega), Option.getD_none]

theorem ofList_toList (a : FieldElement n) : ofList a.toList = a :=
  eq_of_coeff_eq fun i => by rw [coeff_ofList a.length_toList, getD_toList]

theorem eq_toList {cs : List (FixedNat n)} {a : FieldElement n}
    (hLength : cs.length = maxExtensionDegree) (h : ∀ i, cs.getD i 0 = a.coeff i) :
    cs = a.toList := by
  apply List.ext_getElem (hLength.trans a.length_toList.symm)
  intro i hi hi'
  have hCoeff := h i
  rwa [← getD_toList, List.getD_eq_getElem?_getD, List.getElem?_eq_getElem hi,
    List.getD_eq_getElem?_getD, List.getElem?_eq_getElem hi'] at hCoeff

theorem ofCoeffs_congr {degree : Nat} {c c' : Nat → FixedNat n} (h : ∀ i < degree, c i = c' i) :
    ofCoeffs degree c = ofCoeffs degree c' := by
  apply eq_of_coeff_eq
  intro i
  rw [coeff_ofCoeffs, coeff_ofCoeffs]
  split <;> rename_i hi
  · exact h i hi.2
  · rfl

/-- The coefficients that are not given are zero. -/
theorem ofList_append_drop {cs : List (FixedNat n)} (h : cs.length ≤ maxExtensionDegree) :
    ofList (cs ++ (0 : FieldElement n).toList.drop cs.length) =
      ofCoeffs cs.length fun i => cs.getD i 0 := by
  have hLength : (cs ++ (0 : FieldElement n).toList.drop cs.length).length =
      maxExtensionDegree := by
    rw [List.length_append, List.length_drop, length_toList, Nat.add_sub_of_le h]
  apply eq_of_coeff_eq
  intro i
  rw [coeff_ofList hLength, coeff_ofCoeffs, List.getD_eq_getElem?_getD]
  by_cases hi : i < cs.length
  · rw [List.getElem?_append_left hi, if_pos ⟨hi.trans_le h, hi⟩, List.getD_eq_getElem?_getD]
  · rw [List.getElem?_append_right (Nat.le_of_not_lt hi), if_neg fun h => hi h.2,
      List.getElem?_drop, ← List.getD_eq_getElem?_getD, getD_toList, coeff_zero]

/-- The coefficient of a power of the variable. -/
def checkedCoeff (a : FieldElement n) (i : Nat) : Checked (FixedNat n) :=
  Checked.read a.toList i

theorem checkedCoeff_eq (a : FieldElement n) {i : Nat} (hi : i < maxExtensionDegree) :
    a.checkedCoeff i = .ok (a.coeff i) := by
  rw [checkedCoeff, read_eq_getD (hi.trans_eq a.length_toList.symm) 0, getD_toList]

/-- Writing the coefficient after the lowest `k`. -/
theorem write_ofCoeffs (c : Nat → FixedNat n) {k : Nat} (hk : k < maxExtensionDegree) :
    write (ofCoeffs k c).toList k (c k) = .ok (ofCoeffs (k + 1) c).toList := by
  rw [write_eq_ok (hk.trans_eq (length_toList _).symm)]
  congr 1
  apply eq_toList (List.length_set.trans (length_toList _))
  intro i
  rw [CoordinateField.getD_set, getD_toList, coeff_ofCoeffs, coeff_ofCoeffs, length_toList]
  by_cases hik : i = k
  · rw [hik, if_pos ⟨rfl, hk⟩, if_pos ⟨hk, Nat.lt_succ_self k⟩]
  · rw [if_neg fun h => hik h.1]
    exact if_congr (and_congr_right fun _ => by omega) rfl rfl

/-- An element of the base field. -/
def checkedOfBase (c : FixedNat n) : Checked (FieldElement n) := do
  return ofList (← write (0 : FieldElement n).toList 0 c)

theorem checkedOfBase_eq (c : FixedNat n) : checkedOfBase c = .ok (ofBase c) := by
  have hWrite : write (0 : FieldElement n).toList 0 c = .ok (ofBase c).toList :=
    write_ofCoeffs (fun _ => c) (by decide)
  rw [checkedOfBase, hWrite, ok_bind, pure_eq_ok, ofList_toList]

end FieldElement

namespace CoordinateField

open FieldElement

variable {n : Nat} (f : CoordinateField n)

def checkedOne : Checked (FieldElement n) :=
  checkedOfBase f.mont.one

theorem checkedOne_eq : f.checkedOne = .ok f.one :=
  checkedOfBase_eq f.mont.one

/-- The words that one element takes. -/
def checkedElementLength : Checked Nat := do
  return f.degree * (← f.modulus.checkedWordLength)

theorem checkedElementLength_eq : f.checkedElementLength = .ok f.elementLength := by
  rw [checkedElementLength, FixedNat.checkedWordLength_eq]
  rfl

/-- Combines the coefficients below the degree one by one. -/
def checkedCombine (combine : FixedNat n → FixedNat n → Checked (FixedNat n))
    (a b : FieldElement n) : Checked (FieldElement n) := do
  let cs ← (List.range f.degree).foldlM (fun cs i => do
    write cs i (← combine (← a.checkedCoeff i) (← b.checkedCoeff i))) (0 : FieldElement n).toList
  return ofList cs

section

variable {f : CoordinateField n} (hf : f.IsBuilt)

include hf

theorem checkedCombine_eq {checked : FixedNat n → FixedNat n → Checked (FixedNat n)}
    {combine : FixedNat n → FixedNat n → FixedNat n}
    (h : ∀ x y, checked x y = .ok (combine x y)) (a b : FieldElement n) :
    f.checkedCombine checked a b =
      .ok (ofCoeffs f.degree fun i => combine (a.coeff i) (b.coeff i)) := by
  have hStart : (0 : FieldElement n).toList =
      (ofCoeffs 0 fun i => combine (a.coeff i) (b.coeff i)).toList := rfl
  rw [checkedCombine, hStart, foldlM_range fun k =>
    (ofCoeffs k fun i => combine (a.coeff i) (b.coeff i)).toList, ok_bind, pure_eq_ok,
    ofList_toList]
  intro i hi
  have hPlace := hi.trans_le hf.degree_le
  rw [a.checkedCoeff_eq hPlace, b.checkedCoeff_eq hPlace, ok_bind, ok_bind, h, ok_bind]
  exact write_ofCoeffs _ hPlace

end

def checkedAdd (a b : FieldElement n) : Checked (FieldElement n) :=
  f.checkedCombine (FixedNat.checkedAddMod f.modulus) a b

def checkedSub (a b : FieldElement n) : Checked (FieldElement n) :=
  f.checkedCombine (FixedNat.checkedSubMod f.modulus) a b

def checkedDouble (a : FieldElement n) : Checked (FieldElement n) :=
  f.checkedAdd a a

/-- Adds `c` to the coefficient at `i` of a polynomial. -/
def checkedAddAt (cs : List (FixedNat n)) (i : Nat) (c : FixedNat n) :
    Checked (List (FixedNat n)) := do
  write cs i (← FixedNat.checkedAddMod f.modulus (← Checked.read cs i) c)

/-- Takes `c` away from the coefficient at `i` of a polynomial. -/
def checkedSubAt (cs : List (FixedNat n)) (i : Nat) (c : FixedNat n) :
    Checked (List (FixedNat n)) := do
  write cs i (← FixedNat.checkedSubMod f.modulus (← Checked.read cs i) c)

/-- Adds the products of the coefficient of `a` at `i` and the coefficients of `b`. -/
def checkedAddRow (a b : FieldElement n) (cs : List (FixedNat n)) (i : Nat) :
    Checked (List (FixedNat n)) :=
  (List.range f.degree).foldlM (fun cs j => do
    let product ← f.mont.checkedMul (← a.checkedCoeff i) (← b.checkedCoeff j)
    f.checkedAddAt cs (i + j) product) cs

/-- The product of two elements as polynomials. -/
def checkedProduct (a b : FieldElement n) : Checked (List (FixedNat n)) :=
  (List.range f.degree).foldlM (f.checkedAddRow a b) (List.replicate (2 * maxExtensionDegree - 1) 0)

/-- Clears the coefficient at `i`, which goes around through the polynomial of the field into the
coefficients right below it. -/
def checkedFoldTop (cs : List (FixedNat n)) (i : Nat) : Checked (List (FixedNat n)) := do
  let lead ← Checked.read cs i
  if lead.isZero then return cs
  else
    (List.range f.degree).foldlM (fun cs j => do
      let multiple ← f.mont.checkedMul lead (← f.polynomial.checkedCoeff j)
      f.checkedSubAt cs ((← difference i f.degree) + j) multiple) (← write cs i 0)

/-- The remainder of a product, whose coefficients are cleared from the highest down. -/
def checkedFoldProduct (cs : List (FixedNat n)) : Checked (List (FixedNat n)) := do
  let top ← difference (2 * f.degree) 1
  (List.range (top - f.degree)).foldrM (fun i cs => f.checkedFoldTop cs (f.degree + i)) cs

def checkedMul (a b : FieldElement n) : Checked (FieldElement n) := do
  if f.degree = 1 then
    checkedOfBase (← f.mont.checkedMul (← a.checkedCoeff 0) (← b.checkedCoeff 0))
  else
    let cs ← f.checkedFoldProduct (← f.checkedProduct a b)
    return ofList (← overwrite (0 : FieldElement n).toList (← slice cs 0 f.degree))

def checkedSqr (a : FieldElement n) : Checked (FieldElement n) :=
  f.checkedMul a a

/-- The inverse: in the prime field as the power by the prime less two, and in an extension as the
power by the number of elements less two. -/
def checkedInverse (a : FieldElement n) : Checked (FieldElement n) := do
  if f.degree = 1 then checkedOfBase (← f.mont.checkedInverse (← a.checkedCoeff 0))
  else checkedPower f.checkedMul f.inverseExponent (← f.checkedOne) a

/-- The canonical constant coefficient. -/
def checkedDecodeBase (a : FieldElement n) : Checked (FixedNat n) := do
  f.mont.checkedDecode (← a.checkedCoeff 0)

/-- The Montgomery forms of coefficients, all of which have to be below the prime. -/
def checkedEncodeAll : List (FixedNat n) → Checked (Option (List (FixedNat n)))
  | [] => return some []
  | c :: cs => do
    if (← c.checkedCompare f.modulus) != .lt then return none
    else
      let form ← f.mont.checkedEncode c
      return (← checkedEncodeAll cs).map (form :: ·)

/-- The element with the given canonical coefficients. -/
def checkedEncode? (coeffs : List (FixedNat n)) : Checked (Option (FieldElement n)) := do
  if coeffs.length ≠ f.degree then return none
  else return (← f.checkedEncodeAll coeffs).map fun cs =>
    ofList (cs ++ (0 : FieldElement n).toList.drop cs.length)

/-- The canonical coefficients, as many as the degree. -/
def checkedDecode (a : FieldElement n) : Checked (List (FixedNat n)) := do
  (← slice a.toList 0 f.degree).mapM f.mont.checkedDecode

/-- The list has the coefficients of a product of two elements. -/
def HasRoom (cs : List (FixedNat n)) : Prop :=
  cs.length = 2 * maxExtensionDegree - 1

section

variable {f : CoordinateField n} {cs : List (FixedNat n)} {i : Nat}

theorem checkedAddAt_eq (hi : i < cs.length) (c : FixedNat n) :
    f.checkedAddAt cs i c = .ok (f.addAt cs i c) := by
  rw [checkedAddAt, read_eq_getD hi 0, ok_bind, FixedNat.checkedAddMod_eq, ok_bind, write_eq_ok hi,
    addAt]

theorem checkedSubAt_eq (hi : i < cs.length) (c : FixedNat n) :
    f.checkedSubAt cs i c = .ok (f.subAt cs i c) := by
  rw [checkedSubAt, read_eq_getD hi 0, ok_bind, FixedNat.checkedSubMod_eq, ok_bind, write_eq_ok hi,
    subAt]

theorem checkedDecodeBase_eq (a : FieldElement n) :
    f.checkedDecodeBase a = .ok (f.decodeBase a) := by
  rw [checkedDecodeBase, checkedCoeff_eq a (by decide), ok_bind, f.mont.checkedDecode_eq,
    decodeBase]

theorem checkedEncodeAll_eq (cs : List (FixedNat n)) :
    f.checkedEncodeAll cs =
      .ok (if ∀ c ∈ cs, c < f.modulus then some (cs.map f.mont.encode) else none) := by
  induction cs with
  | nil => rfl
  | cons c cs ih =>
      rw [checkedEncodeAll, FixedNat.checkedCompare_eq, ok_bind, FixedNat.bne_lt_eq,
        f.mont.checkedEncode_eq, ok_bind, ih, ok_bind]
      simp only [List.forall_mem_cons, Bool.not_eq_true', decide_eq_false_iff_not]
      by_cases hc : c < f.modulus
      · by_cases hcs : ∀ c ∈ cs, c < f.modulus
        · rw [if_neg (not_not_intro hc), if_pos hcs, if_pos ⟨hc, hcs⟩]
          rfl
        · rw [if_neg (not_not_intro hc), if_neg hcs, if_neg fun h => hcs h.2]
          rfl
      · rw [if_pos hc, if_neg fun h => hc h.1]
        rfl

variable (hf : f.IsBuilt)

include hf

theorem checkedAdd_eq (a b : FieldElement n) : f.checkedAdd a b = .ok (f.add a b) :=
  checkedCombine_eq hf (FixedNat.checkedAddMod_eq f.modulus) a b

theorem checkedSub_eq (a b : FieldElement n) : f.checkedSub a b = .ok (f.sub a b) :=
  checkedCombine_eq hf (FixedNat.checkedSubMod_eq f.modulus) a b

theorem checkedDouble_eq (a : FieldElement n) : f.checkedDouble a = .ok (f.double a) :=
  checkedAdd_eq hf a a

theorem checkedAddRow_eq (a b : FieldElement n) (hRoom : HasRoom cs) (hi : i < f.degree) :
    f.checkedAddRow a b cs i = .ok (f.addRow a b cs i) ∧ HasRoom (f.addRow a b cs i) := by
  have hMax := hf.degree_le
  refine foldlM_eq_foldl (P := HasRoom) (fun cs hRoom j hj => ?_) hRoom
  have hj' := List.mem_range.mp hj
  have hPlace : i + j < cs.length := hRoom ▸ by omega
  rw [a.checkedCoeff_eq (by omega), ok_bind, b.checkedCoeff_eq (by omega), ok_bind,
    f.mont.checkedMul_eq, ok_bind, checkedAddAt_eq hPlace]
  exact ⟨rfl, List.length_set.trans hRoom⟩

theorem checkedProduct_eq (a b : FieldElement n) :
    f.checkedProduct a b = .ok (f.product a b) ∧ HasRoom (f.product a b) :=
  foldlM_eq_foldl (P := HasRoom)
    (fun _ hRoom _ hi => checkedAddRow_eq hf a b hRoom (List.mem_range.mp hi)) List.length_replicate

theorem checkedFoldTop_eq (hRoom : HasRoom cs) (hi : f.degree + i < 2 * maxExtensionDegree - 1) :
    f.checkedFoldTop cs (f.degree + i) = .ok (f.foldTop cs (f.degree + i)) ∧
      HasRoom (f.foldTop cs (f.degree + i)) := by
  have hMax := hf.degree_le
  have hPlace : f.degree + i < cs.length := hRoom ▸ hi
  rw [checkedFoldTop, read_eq_getD hPlace 0, ok_bind, foldTop]
  split
  · exact ⟨rfl, hRoom⟩
  · rw [write_eq_ok hPlace, ok_bind]
    refine foldlM_eq_foldl (P := HasRoom) (fun cs hRoom j hj => ?_) (List.length_set.trans hRoom)
    have hj' := List.mem_range.mp hj
    have hBelow : f.degree + i - f.degree + j < cs.length := hRoom ▸ by omega
    rw [f.polynomial.checkedCoeff_eq (by omega), ok_bind, f.mont.checkedMul_eq, ok_bind,
      difference_eq_ok (Nat.le_add_right _ _), ok_bind, checkedSubAt_eq hBelow]
    exact ⟨rfl, List.length_set.trans hRoom⟩

theorem checkedFoldProduct_eq (hRoom : HasRoom cs) :
    f.checkedFoldProduct cs = .ok (f.foldProduct cs) ∧ HasRoom (f.foldProduct cs) := by
  have hMin := hf.one_le_degree
  have hMax := hf.degree_le
  have hCount : 2 * f.degree - 1 - f.degree = f.degree - 1 := by omega
  rw [checkedFoldProduct, difference_eq_ok (by omega), ok_bind, hCount]
  refine foldrM_eq_foldr (P := HasRoom) (fun cs hRoom i hi => checkedFoldTop_eq hf hRoom ?_) hRoom
  have := List.mem_range.mp hi
  omega

theorem checkedMul_eq (a b : FieldElement n) : f.checkedMul a b = .ok (f.mul a b) := by
  rw [checkedMul, mul]
  split
  · rw [a.checkedCoeff_eq (by decide), ok_bind, b.checkedCoeff_eq (by decide), ok_bind,
      f.mont.checkedMul_eq, ok_bind, checkedOfBase_eq]
  · have hMax := hf.degree_le
    obtain ⟨hProduct, hRoom⟩ := checkedProduct_eq hf a b
    obtain ⟨hFolded, hRoom⟩ := checkedFoldProduct_eq hf hRoom
    rw [hProduct, ok_bind, hFolded, ok_bind]
    generalize f.foldProduct (f.product a b) = cs at hRoom
    have hFits : f.degree ≤ cs.length := hRoom ▸ by omega
    have hTaken : (cs.take f.degree).length = f.degree := List.length_take_of_le hFits
    have hWithin : (cs.take f.degree).length ≤ maxExtensionDegree := hTaken.trans_le hMax
    rw [slice_zero hFits, ok_bind, overwrite_eq_ok (hWithin.trans_eq (length_toList _).symm),
      ok_bind, pure_eq_ok, ofList_append_drop hWithin, hTaken]
    congr 1
    apply ofCoeffs_congr
    intro i hi
    rw [List.getD_eq_getElem?_getD, List.getElem?_take_of_lt hi, ← List.getD_eq_getElem?_getD]

theorem checkedSqr_eq (a : FieldElement n) : f.checkedSqr a = .ok (f.sqr a) :=
  checkedMul_eq hf a a

theorem checkedInverse_eq (a : FieldElement n) : f.checkedInverse a = .ok (f.inverse a) := by
  rw [checkedInverse]
  split <;> rename_i hDegree
  · rw [a.checkedCoeff_eq (by decide), ok_bind, f.mont.checkedInverse_eq, ok_bind, checkedOfBase_eq,
      inverse_eq_ofBase hf hDegree]
  · rw [f.checkedOne_eq, ok_bind, checkedPower_eq (checkedMul_eq hf)]
    rfl

theorem checkedEncode?_eq (coeffs : List (FixedNat n)) :
    f.checkedEncode? coeffs = .ok (f.encode? coeffs) := by
  rw [checkedEncode?, encode?]
  by_cases hLength : coeffs.length = f.degree
  · have hForms : (coeffs.map f.mont.encode).length = f.degree := by
      rw [List.length_map, hLength]
    rw [if_neg (not_not_intro hLength), checkedEncodeAll_eq, ok_bind]
    by_cases hBelow : ∀ c ∈ coeffs, c < f.modulus
    · rw [if_pos hBelow, if_pos ⟨hLength, hBelow⟩, Option.map_some,
        ofList_append_drop (hForms.trans_le hf.degree_le), hForms, pure_eq_ok]
      congr 2
      apply ofCoeffs_congr
      intro i hi
      rw [List.getD_eq_getElem?_getD, List.getD_eq_getElem?_getD, List.getElem?_map,
        List.getElem?_eq_getElem (hi.trans_eq hLength.symm)]
      rfl
    · rw [if_neg hBelow, if_neg fun h => hBelow h.2]
      rfl
  · rw [if_pos hLength, if_neg fun h => hLength h.1]
    rfl

theorem checkedDecode_eq (a : FieldElement n) : f.checkedDecode a = .ok (f.decode a) := by
  have hRoom : f.degree ≤ a.toList.length := hf.degree_le.trans_eq a.length_toList.symm
  have hTaken : a.toList.take f.degree = (List.range f.degree).map a.coeff := by
    apply List.ext_getElem
    · rw [List.length_take_of_le hRoom, List.length_map, List.length_range]
    · intro i hi _
      have hPlace : i < a.toList.length := hi.trans_le (List.length_take_le' _ _)
      rw [List.getElem_take, List.getElem_map, List.getElem_range, ← getD_toList,
        List.getD_eq_getElem?_getD, List.getElem?_eq_getElem hPlace, Option.getD_some]
  have hEach : f.mont.checkedDecode = fun c => pure (f.mont.decode c) :=
    funext f.mont.checkedDecode_eq
  rw [checkedDecode, slice_zero hRoom, ok_bind, hEach, List.mapM_pure, hTaken, List.map_map]
  rfl

end

end CoordinateField

end NybergRueppel
