import NybergRueppel.Proofs.Exchange.RoundTrip
import NybergRueppel.Proofs.Field.RemainderRing
import NybergRueppel.Proofs.Group.Points

/-!
Points that are sent back. A point of a group, whatever its Jacobian coordinates, is decoded as the
same point again, and a point that was decoded is sent with the same numbers, which are then written
in their canonical form.
-/
namespace NybergRueppel

open Hexadecimal

/-- A numeral and the canonical numeral for the same number below `limit`. -/
def IsCanonicalFormOf (limit : Nat) (text canonical : String) : Prop :=
  ∃ value < limit, IsNumeral text value ∧ IsCanonicalNumeral canonical value

/-- What is read from a list of texts is written in canonical form. -/
theorem forall₂_isCanonicalFormOf {n : Nat} {quantity : Quantity} {texts : List String}
    {xs : List (FixedNat n)} (h : readNumbers n quantity texts = .ok xs) :
    List.Forall₂ (IsCanonicalFormOf (Word.base ^ n)) texts (xs.map FixedNat.toHex) := by
  rw [List.forall₂_map_right_iff]
  apply (readNumbers_eq_ok_iff.mp h).imp
  intro text x hText
  exact ⟨x.toNat, x.toNat_lt, hText, x.isCanonicalNumeral_toHex⟩

namespace SentPoint

open CurveGroup

variable {n : Nat} {group : CurveGroup n} {p : JacobianPoint n}

/-- A point that was sent can be decoded, and the decoded point is the same. -/
theorem decode_ofPoint (h : group.OverGaloisField) (hp : group.HasPoint p)
    (hFinite : p.isInfinity = false) :
    ∃ sent q, ofPoint group p = .ok sent ∧ sent.decode group = .ok q ∧
      group.curve.samePoint q p = true ∧ q.elementLength = p.elementLength := by
  obtain ⟨xs, ys, q, hAffine, hPoint, hq, hSame⟩ := hp.exists_ofAffine
    h.overGaloisField.isGaloisField.realization h.overGaloisField.isAccepted hFinite
  refine ⟨⟨p.elementLength, xs.map FixedNat.toHex, ys.map FixedNat.toHex⟩, q,
    by rw [ofPoint, hAffine], ?_, hSame, hq.elementLength_eq.trans hp.elementLength_eq.symm⟩
  rw [decode, if_neg (not_not_intro hp.elementLength_eq), readNumbers_map_toHex,
    readNumbers_map_toHex]
  exact hPoint

/-- A point that was decoded is sent with the numbers that were read, in canonical form. -/
theorem ofPoint_of_decode_eq (h : group.OverGaloisField) {sent : SentPoint}
    (hDecode : sent.decode group = .ok p) :
    ∃ again, ofPoint group p = .ok again ∧ again.elementLength = sent.elementLength ∧
      List.Forall₂ (IsCanonicalFormOf (Word.base ^ n)) sent.x again.x ∧
      List.Forall₂ (IsCanonicalFormOf (Word.base ^ n)) sent.y again.y := by
  rw [decode] at hDecode
  split at hDecode <;> rename_i hLength
  · cases hDecode
  · obtain ⟨xs, hxs, hDecode⟩ := exists_of_bind_eq_ok hDecode
    obtain ⟨ys, hys, hDecode⟩ := exists_of_bind_eq_ok hDecode
    obtain ⟨x, y, hx, hy, rfl, -⟩ := ofAffine_eq_ok hDecode
    refine ⟨⟨sent.elementLength, xs.map FixedNat.toHex, ys.map FixedNat.toHex⟩, ?_, rfl,
      forall₂_isCanonicalFormOf hxs, forall₂_isCanonicalFormOf hys⟩
    rw [ofPoint, toAffine?_ofAffine h.isBuilt hx hy, not_not.mp hLength]
    rfl

/-- Whatever the operations of a group make is a point of the group, every finite point of the group
is decoded as the same point after it was sent, and what was decoded is sent again with the same
element length and the same numbers. -/
theorem points_survive (h : group.OverGaloisField) :
    (∀ p, group.Makes p → group.HasPoint p) ∧
    (∀ p, group.HasPoint p → p.isInfinity = false →
      ∃ sent q, ofPoint group p = .ok sent ∧ sent.decode group = .ok q ∧
        group.curve.samePoint q p = true ∧ q.elementLength = p.elementLength) ∧
    ∀ (sent : SentPoint) (p : JacobianPoint n), sent.decode group = .ok p →
      ∃ again, ofPoint group p = .ok again ∧ again.elementLength = sent.elementLength ∧
        List.Forall₂ (IsCanonicalFormOf (Word.base ^ n)) sent.x again.x ∧
        List.Forall₂ (IsCanonicalFormOf (Word.base ^ n)) sent.y again.y :=
  ⟨fun _ hp => h.hasPoint hp, fun _ hp hFinite => decode_ofPoint h hp hFinite,
    fun _ _ hDecode => ofPoint_of_decode_eq h hDecode⟩

theorem overGaloisField_toyGroup : toyGroup.OverGaloisField := by
  obtain ⟨-, hCurve, -⟩ := ofBasePoint_eq_ok (eq_ok_get_toOption isSome_toyGroup)
  refine ⟨?_, overPrimeField_toyGroup.ofBasePoint_eq⟩
  rw [toyGroup, hCurve]
  exact overGaloisField_toyCurve

/-- A point with `Z ≠ 1` that is sent, and coordinates that are sent in another form. -/
theorem points_survive_toyGroup :
    let p := toyGroup.curve.double toyGroup.generator
    let sent : SentPoint := ⟨1, ["0x00"], [" 0b"]⟩
    (∃ sent q, ofPoint toyGroup p = .ok sent ∧ sent.decode toyGroup = .ok q ∧
      toyGroup.curve.samePoint q p = true) ∧
    ∃ again, (sent.decode toyGroup >>= ofPoint toyGroup) = .ok again ∧
      List.Forall₂ (IsCanonicalFormOf (Word.base ^ 1)) sent.y again.y := by
  intro p sent
  obtain ⟨hMakes, hSends, hDecodes⟩ := points_survive overGaloisField_toyGroup
  refine ⟨?_, ?_⟩
  · obtain ⟨sent, q, hSent, hDecode, hSame, -⟩ :=
      hSends p (hMakes p (.double .generator)) (by decide +kernel)
    exact ⟨sent, q, hSent, hDecode, hSame⟩
  · have hPoint : sent.decode toyGroup = .ok toyGroup.generator := by decide +kernel
    obtain ⟨again, hAgain, -, -, hy⟩ := hDecodes sent toyGroup.generator hPoint
    rw [hPoint]
    exact ⟨again, hAgain, hy⟩

end SentPoint

end NybergRueppel
