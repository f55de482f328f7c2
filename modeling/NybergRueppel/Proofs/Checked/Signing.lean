import NybergRueppel.Exchange.Handler
import NybergRueppel.Proofs.Checked.Calls
import NybergRueppel.Proofs.Signature.Sign

/-!
Signing and verification on the checking machine. Before anything is multiplied the number of the
window tables is looked at, and only what that check lets through is cut out of the entries.
-/
namespace NybergRueppel

open Checked CheckedCall

namespace Checked

variable {n : Nat} (table : WindowTable n) (rest : List (JacobianPoint n))

/-- The entries of the lowest table. -/
theorem slice_table : slice (table.toList ++ rest) 0 tableLength = .ok table.toList := by
  have hLength : table.toList.length = tableLength := table.length_toList
  rw [slice_zero (by rw [List.length_append, hLength]; exact Nat.le_add_right _ _),
    List.take_left' hLength]

/-- The entries above the lowest table. -/
theorem slice_above_table :
    slice (table.toList ++ rest) tableLength (table.toList ++ rest).length = .ok rest := by
  have hLength : table.toList.length = tableLength := table.length_toList
  rw [slice_length (by rw [List.length_append, hLength]; exact Nat.le_add_right _ _),
    List.drop_left' hLength]

end Checked

namespace Signature

variable {n : Nat}

/-- The signature that two components are stored in, unless one of them does not fit. -/
def stored (out : Signature) (c d : FixedNat n) : Except Failure Signature := do
  let storedC ← out.c.setUnsigned c.limbs
  let storedD ← out.d.setUnsigned d.limbs
  return { c := storedC, d := storedD }

/-- Storing tells by its outcome whether both components fit. -/
theorem map_store (out : Signature) (c d : FixedNat n) :
    (((out.store c d).1.mapError Stop.failure).map fun _ => (out.store c d).2) =
      (out.stored c d).mapError .failure := by
  rw [stored, store]
  cases out.c.setUnsigned c.limbs with
  | error failure => rfl
  | ok storedC => cases out.d.setUnsigned d.limbs <;> rfl

end Signature

namespace CurveGroup

variable {n : Nat} (group : CurveGroup n)

/-- The multiple `k * p`, with the entries of one window table. -/
def checkedMulPoint (k : FixedNat n) (p : JacobianPoint n) : CheckedCall n (JacobianPoint n) := do
  let memory ← get
  if memory.capacity < 1 then fail .bufferTooSmall
  else
    let table ← lift (slice memory.entries 0 tableLength)
    let (product, _) ← lift (group.curve.checkedMulPoint k p group.order.bits table)
    set { memory with entries := List.replicate memory.entries.length default }
    return product

/-- The sum `d * G + c * q`, with the entries of two window tables. -/
def checkedMulBaseAndPoint (d c : FixedNat n) (q : JacobianPoint n) :
    CheckedCall n (JacobianPoint n) := do
  let memory ← get
  if memory.capacity < 2 then fail .bufferTooSmall
  else
    let first ← lift (slice memory.entries 0 tableLength)
    let rest ← lift (slice memory.entries tableLength memory.entries.length)
    let second ← lift (slice rest 0 tableLength)
    let (sum, _) ← lift (group.curve.checkedMulTwoPoints d group.generator c q group.order.bits
      first second)
    set { memory with entries := List.replicate memory.entries.length default }
    return sum

/-- What has to hold before numbers are looked at: a prime field and enough window tables. -/
def checkedTables (tables needed : Nat) : Checked (Except Failure Unit) :=
  if group.isExtension then return .error .unsupportedMode
  else if tables < needed then return .error .bufferTooSmall
  else return .ok ()

/-- For signing also the buffers have to be large enough. -/
def checkedBuffers (tables : Nat) (out : Signature) : Checked (Except Failure Unit) :=
  if group.isExtension then return .error .unsupportedMode
  else if out.c.room < group.order.words ∨ out.d.room < group.order.words then
    return .error .bufferTooSmall
  else if tables < signTables then return .error .bufferTooSmall
  else return .ok ()

/-- The components for a message representative, a private key and a nonce. -/
def checkedSignScalars (m x k : FixedNat n) : CheckedCall n (FixedNat n × FixedNat n) :=
  withPoints 1 fun slots => do
    setPoint slots 0 (← group.checkedMulPoint k group.generator)
    match ← lift (group.curve.checkedAffine? (← point slots 0)) with
    | none => fail .degenerateSignature
    | some (rx, _) =>
      let r ← lift (group.checkedResidue rx)
      let c ← lift (group.order.checkedAdd r m)
      if c.isZero then fail .degenerateSignature
      else
        let xc ← lift (group.order.checkedMul x c)
        let d ← lift (group.order.checkedSub k xc)
        return (c, d)

/-- Signs a message representative into the buffers of a signature. -/
def checkedSign (message key nonce : BufferedInt) (out : Signature) : CheckedCall n Signature := do
  let tables ← capacity
  ofStep (group.checkedBuffers tables out)
  let x ← ofStep (group.checkedPrivateScalar key)
  let k ← ofStep (group.checkedPrivateScalar nonce)
  let m ← ofStep (group.checkedMessageScalar message)
  let (c, d) ← group.checkedSignScalars m x k
  let storedC ← ofStep (out.c.checkedSetUnsigned c.limbs)
  let storedD ← ofStep (out.d.checkedSetUnsigned d.limbs)
  return { c := storedC, d := storedD }

/-- The public key has to be of the same element length, and no component may be negative. -/
def checkedSignature (key : JacobianPoint n) (signature : Signature) :
    Checked (Except Failure Unit) := do
  if key.elementLength ≠ (← group.field.checkedElementLength) then return .error .keyLengthMismatch
  else if signature.c.isNegative || signature.d.isNegative then return .error .negativeComponent
  else return .ok ()

/-- The components as integers strictly between zero and the order. -/
def checkedComponents? (signature : Signature) : Checked (Option (FixedNat n × FixedNat n)) := do
  match ← signature.c.checkedToFixed? n, ← signature.d.checkedToFixed? n with
  | some c, some d =>
    if ← group.order.checkedInOpenRange c then
      if ← group.order.checkedInOpenRange d then return some (c, d) else return none
    else return none
  | _, _ => return none

/-- Recomputes the point of a signature and compares. -/
def checkedVerifyScalars (m c d : FixedNat n) (key : JacobianPoint n) : CheckedCall n Verdict :=
  withElements 3 fun elements => do
    setElement elements 0 d
    setElement elements 1 c
    withPoints 1 fun points => do
      let d ← element elements 0
      let c ← element elements 1
      setPoint points 0 (← group.checkedMulBaseAndPoint d c key)
      match ← lift (group.curve.checkedAffine? (← point points 0)) with
      | none => return .invalid
      | some (px, _) =>
        let r ← lift (group.checkedResidue px)
        let c ← element elements 1
        setElement elements 2 (← lift (group.order.checkedSub c r))
        let left ← element elements 2
        return if left = m then .valid else .invalid

/-- Checks a signature on a message representative. -/
def checkedVerify (message : BufferedInt) (key : JacobianPoint n) (signature : Signature) :
    CheckedCall n Verdict := do
  let tables ← capacity
  ofStep (group.checkedTables tables verifyTables)
  ofStep (group.checkedSignature key signature)
  let m ← ofStep (group.checkedMessageScalar message)
  match ← lift (group.checkedComponents? signature) with
  | none => return .invalid
  | some (c, d) =>
    if key.isInfinity then return .invalid else group.checkedVerifyScalars m c d key

/-- Signing as a call that gives the stored signature, or is stopped by what stopped the signing. -/
def signed (message key nonce : BufferedInt) (out : Signature) : Call n Signature := do
  let (outcome, signature) ← group.sign message key nonce out
  match outcome with
  | .error stop => throw stop
  | .ok () => return signature

variable {group} {e p : Option SlotRange}

theorem checkedTables_eq (scratch : Scratch n) (needed : Nat) :
    group.checkedTables scratch.capacity needed = .ok (group.checkRequest scratch needed) := by
  simp only [checkedTables, checkRequest, apply_ite Except.ok, pure_eq_ok]

theorem checkedBuffers_eq (scratch : Scratch n) (out : Signature) :
    group.checkedBuffers scratch.capacity out = .ok (group.checkSigning out scratch) := by
  simp only [checkedBuffers, checkSigning, apply_ite Except.ok, pure_eq_ok]

theorem checkedSignature_eq (key : JacobianPoint n) (signature : Signature) :
    group.checkedSignature key signature = .ok (group.checkSignature key signature) := by
  rw [checkedSignature, CoordinateField.checkedElementLength_eq, ok_bind, checkSignature,
    elementLength]
  split
  · rfl
  · split <;> rfl

theorem checkedComponents?_eq {signature : Signature} (hc : signature.c.size ≤ signature.c.room)
    (hd : signature.d.size ≤ signature.d.room) :
    group.checkedComponents? signature = .ok (group.components? signature) := by
  rw [checkedComponents?, components?, BufferedInt.checkedToFixed?_eq hc, ok_bind,
    BufferedInt.checkedToFixed?_eq hd, ok_bind]
  cases signature.c.toFixed? n with
  | none => rfl
  | some c =>
      cases signature.d.toFixed? n with
      | none => rfl
      | some d =>
          dsimp only
          rw [GroupOrder.checkedInOpenRange_eq, ok_bind, GroupOrder.checkedInOpenRange_eq, ok_bind]
          cases group.order.inOpenRange c <;> cases group.order.inOpenRange d <;> rfl

section

variable (hf : group.field.IsBuilt)

include hf

theorem refines_mulPoint (k : FixedNat n) (q : JacobianPoint n) :
    Refines e p (group.checkedMulPoint k q) (group.mulPoint k q) fun _ => True := by
  intro ws hws
  by_cases hFew : ws.scratch.capacity < 1
  · refine ⟨.error .bufferTooSmall, ws, hws, fun _ h => (by cases h), (runs_get _).bind ?_,
      ends_mulPoint_of_few ws k q hFew⟩
    rw [ws.capacity_memory, if_pos hFew]
    exact runs_fail _
  · refine ⟨.ok (group.multiple k q), { ws with scratch := ws.scratch.wipe },
      ⟨hws.elements, hws.points⟩, fun _ _ => trivial, (runs_get _).bind ?_,
      ends_mulPoint ws k q (Nat.le_of_not_lt hFew)⟩
    obtain ⟨table, rest, hTables⟩ := List.exists_cons_of_length_pos (Nat.not_lt.mp hFew)
    have hEntries : ws.memory.entries = table.toList ++ rest.flatMap Vector.toList := by
      rw [Workspace.memory, hTables, List.flatMap_cons]
    rw [ws.capacity_memory, if_neg hFew, hEntries, lift_bind (slice_table table _),
      lift_bind (Curve.checkedMulPoint_eq hf k q group.order.bits table), ← hEntries,
      Curve.mulPoint_fst_eq group.curve k q group.order.bits table .blank, ws.memory_wipe]
    exact runs_set.bind (runs_pure _)

-- Fifteen entries stop the machine, so that the look at the number of the tables is needed.
example : toyGroup.curve.checkedMulPoint (.ofWord 2) toyGroup.generator 5
    (List.replicate 15 default) = .error .failedAssertion := by
  decide +kernel

theorem refines_mulBaseAndPoint (d c : FixedNat n) (q : JacobianPoint n) :
    Refines e p (group.checkedMulBaseAndPoint d c q) (group.mulBaseAndPoint d c q)
      fun _ => True := by
  intro ws hws
  by_cases hFew : ws.scratch.capacity < 2
  · refine ⟨.error .bufferTooSmall, ws, hws, fun _ h => (by cases h), (runs_get _).bind ?_,
      ends_mulBaseAndPoint_of_few ws d c q hFew⟩
    rw [ws.capacity_memory, if_pos hFew]
    exact runs_fail _
  · refine ⟨.ok (group.combination d c q), { ws with scratch := ws.scratch.wipe },
      ⟨hws.elements, hws.points⟩, fun _ _ => trivial, (runs_get _).bind ?_,
      ends_mulBaseAndPoint ws d c q (Nat.le_of_not_lt hFew)⟩
    obtain ⟨first, second, rest, hTables⟩ :
        ∃ first second rest, ws.scratch.tables = first :: second :: rest := by
      match hTables : ws.scratch.tables with
      | first :: second :: rest => exact ⟨first, second, rest, rfl⟩
      | [] => exact absurd (by rw [Scratch.capacity, hTables]; exact Nat.zero_lt_two) hFew
      | [_] => exact absurd (by rw [Scratch.capacity, hTables]; exact Nat.one_lt_two) hFew
    have hEntries : ws.memory.entries =
        first.toList ++ (second.toList ++ rest.flatMap Vector.toList) := by
      rw [Workspace.memory, hTables, List.flatMap_cons, List.flatMap_cons]
    rw [ws.capacity_memory, if_neg hFew, hEntries, lift_bind (slice_table first _),
      lift_bind (slice_above_table first _), lift_bind (slice_table second _),
      lift_bind (Curve.checkedMulTwoPoints_eq hf d group.generator c q group.order.bits first
        second), ← hEntries, Curve.mulTwoPoints_fst_eq group.curve d group.generator c q
        group.order.bits first second .blank .blank, ws.memory_wipe]
    exact runs_set.bind (runs_pure _)

theorem refines_signScalars (m x k : FixedNat n) :
    Refines e none (group.checkedSignScalars m x k) (group.signScalars m x k) fun _ => True := by
  refine refines_withPoints 1 fun slots hCount => ?_
  have hSlot : 0 < slots.count := hCount ▸ Nat.one_pos
  refine (refines_mulPoint hf k group.generator).bind fun product _ => ?_
  refine (refines_setPoint hSlot product).bind fun _ _ => ?_
  refine (refines_point hSlot).bind fun product _ => ?_
  rw [lift_bind (Curve.checkedAffine?_eq hf product)]
  cases group.curve.affine? product with
  | none => exact refines_fail _
  | some coordinates =>
      obtain ⟨rx, ry⟩ := coordinates
      dsimp only
      rw [lift_bind (checkedResidue_eq rx), lift_bind (GroupOrder.checkedAdd_eq _ m)]
      split
      · exact refines_fail _
      · rw [lift_bind (GroupOrder.checkedMul_eq x _), lift_bind (GroupOrder.checkedSub_eq k _)]
        exact refines_pure trivial

theorem refines_verifyScalars (m c d : FixedNat n) (key : JacobianPoint n) :
    Refines none none (group.checkedVerifyScalars m c d key) (group.verifyScalars m c d key)
      fun _ => True := by
  refine refines_withElements 3 fun elements hElements => ?_
  have hPlace {i : Nat} (hi : i < 3) : i < elements.count := hElements ▸ hi
  refine (refines_setElement (hPlace (by decide)) d).bind fun _ _ => ?_
  refine (refines_setElement (hPlace (by decide)) c).bind fun _ _ => ?_
  refine refines_withPoints 1 fun points hPoints => ?_
  have hSlot : 0 < points.count := hPoints ▸ Nat.one_pos
  refine (refines_element (hPlace (by decide))).bind fun d _ => ?_
  refine (refines_element (hPlace (by decide))).bind fun c _ => ?_
  refine (refines_mulBaseAndPoint hf d c key).bind fun sum _ => ?_
  refine (refines_setPoint hSlot sum).bind fun _ _ => ?_
  refine (refines_point hSlot).bind fun sum _ => ?_
  rw [lift_bind (Curve.checkedAffine?_eq hf sum)]
  cases group.curve.affine? sum with
  | none => exact refines_pure trivial
  | some coordinates =>
      obtain ⟨px, py⟩ := coordinates
      dsimp only
      rw [lift_bind (checkedResidue_eq px)]
      refine (refines_element (hPlace (by decide))).bind fun c _ => ?_
      rw [lift_bind (GroupOrder.checkedSub_eq c _)]
      refine (refines_setElement (hPlace (by decide)) _).bind fun _ _ => ?_
      exact (refines_element (hPlace (by decide))).bind fun left _ => refines_pure trivial

/-- A verification runs through, whatever the signature is. -/
theorem refines_verify {message : BufferedInt} (hMessage : message.IsNormal)
    {signature : Signature} (hc : signature.c.IsNormal) (hd : signature.d.IsNormal)
    (key : JacobianPoint n) :
    Refines none none (group.checkedVerify message key signature)
      (group.verify message key signature) fun _ => True := by
  refine refines_capacity fun ws => ?_
  refine (refines_ofStep (checkedTables_eq ws.scratch _) fun _ _ => trivial).bind fun _ _ => ?_
  refine (refines_ofStep (checkedSignature_eq key signature) fun _ _ => trivial).bind fun _ _ => ?_
  refine (refines_ofStep (checkedMessageScalar_eq hMessage) fun _ _ => trivial).bind fun m _ => ?_
  rw [lift_bind (checkedComponents?_eq hc.size_le_room hd.size_le_room)]
  cases group.components? signature with
  | none => exact refines_pure trivial
  | some components =>
      obtain ⟨c, d⟩ := components
      dsimp only
      split
      · exact refines_pure trivial
      · exact refines_verifyScalars hf m c d key

end

/-- What signing does: it looks at its inputs, computes the components and stores them. -/
def signSteps (group : CurveGroup n) (message key nonce : BufferedInt) (out : Signature) :
    Call n Signature := do
  let ws ← get
  let (m, x, k) ← Call.ofExcept (group.signingInputs message key nonce out ws.scratch)
  let (c, d) ← group.signScalars m x k
  Call.ofExcept (out.stored c d)

theorem ends_signed {message key nonce : BufferedInt} {out signature : Signature}
    {outcome : Except Stop Unit} {ws ws' : Workspace n}
    (h : (group.sign message key nonce out).run ws = ((outcome, signature), ws')) :
    (group.signed message key nonce out).Ends ws (outcome.map fun _ => signature) ws' := by
  refine (Call.ends_liftM h).bind ?_
  cases outcome <;> rfl

-- The buffers that a failure leaves behind are not part of what a call gives.
theorem signed_eq (message key nonce : BufferedInt) (out : Signature) :
    group.signed message key nonce out = group.signSteps message key nonce out := by
  refine ExceptT.ext (StateT.ext fun ws => ?_)
  suffices h : ∃ result ws', (group.signed message key nonce out).Ends ws result ws' ∧
      (group.signSteps message key nonce out).Ends ws result ws' by
    obtain ⟨result, ws', hSigned, hSteps⟩ := h
    exact hSigned.trans hSteps.symm
  cases hInputs : group.signingInputs message key nonce out ws.scratch with
  | error failure =>
      refine ⟨.error (.failure failure), ws, ends_signed (run_sign_of_error hInputs),
        (Call.ends_get ws).bind ?_⟩
      rw [hInputs]
      exact (Call.ends_ofExcept_error failure).bind_error
  | ok scalars =>
      obtain ⟨m, x, k⟩ := scalars
      obtain ⟨result, ws', hScalars⟩ :
          ∃ result ws', (group.signScalars m x k).Ends ws result ws' := ⟨_, _, rfl⟩
      refine ⟨_, ws', ends_signed (run_sign_of_ends hInputs hScalars),
        (Call.ends_get ws).bind ?_⟩
      rw [hInputs]
      refine (Call.ends_ofExcept_ok (m, x, k)).bind ?_
      cases result with
      | error stop => exact hScalars.bind_error
      | ok components =>
          obtain ⟨c, d⟩ := components
          refine hScalars.bind ?_
          dsimp only [finish]
          rw [out.map_store]
          cases out.stored c d <;> rfl

/-- Signing runs through, and what it stores is normal. -/
theorem refines_sign (hf : group.field.IsBuilt) {message key nonce : BufferedInt}
    (hMessage : message.IsNormal) (hKey : key.IsNormal) (hNonce : nonce.IsNormal)
    {out : Signature} (hOutC : out.c.IsNormal) (hOutD : out.d.IsNormal) :
    Refines e none (group.checkedSign message key nonce out)
      (group.signed message key nonce out)
      fun signature => signature.c.IsNormal ∧ signature.d.IsNormal := by
  rw [signed_eq]
  refine refines_capacity fun ws => ?_
  simp only [signingInputs, Call.ofExcept_bind, bind_assoc]
  refine (refines_ofStep (checkedBuffers_eq ws.scratch out) fun _ _ => trivial).bind fun _ _ => ?_
  refine (refines_ofStep (checkedPrivateScalar_eq hKey) fun _ _ => trivial).bind fun x _ => ?_
  refine (refines_ofStep (checkedPrivateScalar_eq hNonce) fun _ _ => trivial).bind fun k _ => ?_
  refine (refines_ofStep (checkedMessageScalar_eq hMessage) fun _ _ => trivial).bind fun m _ => ?_
  refine (refines_signScalars hf m x k).bind fun components _ => ?_
  obtain ⟨c, d⟩ := components
  have hStoredC (a : BufferedInt) (h : out.c.setUnsigned c.limbs = .ok a) : a.IsNormal :=
    (BufferedInt.of_setUnsigned_eq hOutC.one_le_room h).isNormal
  have hStoredD (a : BufferedInt) (h : out.d.setUnsigned d.limbs = .ok a) : a.IsNormal :=
    (BufferedInt.of_setUnsigned_eq hOutD.one_le_room h).isNormal
  simp only [Signature.stored, Call.ofExcept_bind]
  refine (refines_ofStep (BufferedInt.checkedSetUnsigned_eq hOutC.one_le_room _) hStoredC).bind
    fun storedC hc => ?_
  refine (refines_ofStep (BufferedInt.checkedSetUnsigned_eq hOutD.one_le_room _) hStoredD).bind
    fun storedD hd => ?_
  exact refines_pure ⟨hc, hd⟩

end CurveGroup

end NybergRueppel
