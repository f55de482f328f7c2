import NybergRueppel.Proofs.Calls.Basic
import NybergRueppel.Proofs.Signature.Checks

/-!
What a call answers does not depend on the workspace it is made in. Two workspaces may differ in the
number and the contents of their window tables, in the contents of their slots and in how many slots
are handed out: if both have what the call uses, both give the same answer.
-/
namespace NybergRueppel

variable {n : Nat}

namespace Call

variable {α β : Type}

/-- Both workspaces give the same result. -/
def SameResult (call : Call n α) (ws ws' : Workspace n) : Prop :=
  (call.run.run ws).1 = (call.run.run ws').1

variable {ws ws' : Workspace n}

theorem Gives.fst_eq {call : Call n α} {result : Except Stop α} (h : Gives call ws result) :
    (call.run.run ws).1 = result := by
  obtain ⟨wsEnd, hEnds⟩ := h
  exact congrArg Prod.fst hEnds

theorem Gives.sameResult {call : Call n α} {result : Except Stop α} (h : Gives call ws result)
    (h' : Gives call ws' result) : SameResult call ws ws' :=
  h.fst_eq.trans h'.fst_eq.symm

/-- Inputs that do not depend on the workspace are taken in before a call that does not either. -/
theorem sameResult_of_ofExcept {step : Except Failure α} {next : α → Call n β}
    (h : ∀ a, step = .ok a → SameResult (next a) ws ws') :
    SameResult (do next (← ofExcept step)) ws ws' := by
  cases step with
  | error failure =>
      have hStop (ws : Workspace n) : Gives (ofExcept (.error failure) >>= next) ws
          (.error (.failure failure)) := (ends_ofExcept_error failure).bind_error.gives
      exact (hStop ws).sameResult (hStop ws')
  | ok a => exact h a rfl

/-- Inputs may look at the window tables, if they find the same in both. -/
theorem sameResult_of_inputs {step : Scratch n → Except Failure α} {next : α → Call n β}
    (hStep : step ws.scratch = step ws'.scratch)
    (h : ∀ a, step ws.scratch = .ok a → SameResult (next a) ws ws') :
    SameResult (do next (← ofExcept (step (← get).scratch))) ws ws' := by
  cases hInputs : step ws.scratch with
  | error failure =>
      rw [SameResult, run_of_inputs_eq_error hInputs, run_of_inputs_eq_error (hStep ▸ hInputs)]
  | ok a =>
      rw [SameResult, run_of_inputs_eq_ok hInputs, run_of_inputs_eq_ok (hStep ▸ hInputs)]
      exact h a hInputs

end Call

namespace CurveGroup

open Call

variable {group : CurveGroup n} {ws ws' : Workspace n} {s s' : Scratch n}

theorem sameResult_mulPoint (hTables : 1 ≤ ws.scratch.capacity)
    (hTables' : 1 ≤ ws'.scratch.capacity) (k : FixedNat n) (p : JacobianPoint n) :
    SameResult (group.mulPoint k p) ws ws' :=
  (ends_mulPoint ws k p hTables).gives.sameResult (ends_mulPoint ws' k p hTables').gives

theorem sameResult_mulBaseAndPoint (hTables : 2 ≤ ws.scratch.capacity)
    (hTables' : 2 ≤ ws'.scratch.capacity) (d c : FixedNat n) (q : JacobianPoint n) :
    SameResult (group.mulBaseAndPoint d c q) ws ws' :=
  (ends_mulBaseAndPoint ws d c q hTables).gives.sameResult
    (ends_mulBaseAndPoint ws' d c q hTables').gives

theorem checkSigning_eq_of_tables (hTables : signTables ≤ s.capacity)
    (hTables' : signTables ≤ s'.capacity) (out : Signature) :
    group.checkSigning out s = group.checkSigning out s' := by
  rw [checkSigning, checkSigning, if_neg (Nat.not_lt.mpr hTables),
    if_neg (Nat.not_lt.mpr hTables')]

theorem checkVerifying_eq_of_tables (hTables : verifyTables ≤ s.capacity)
    (hTables' : verifyTables ≤ s'.capacity) : group.checkVerifying s = group.checkVerifying s' := by
  rw [checkVerifying, checkVerifying, if_neg (Nat.not_lt.mpr hTables),
    if_neg (Nat.not_lt.mpr hTables')]

/-- Signing gives the same outcome and leaves the same in the buffers. -/
theorem run_sign_fst_eq (hReady : ws.IsReadyToSign) (hReady' : ws'.IsReadyToSign)
    (message key nonce : BufferedInt) (out : Signature) :
    ((group.sign message key nonce out).run ws).1 =
      ((group.sign message key nonce out).run ws').1 := by
  have hSame : group.signingInputs message key nonce out ws.scratch =
      group.signingInputs message key nonce out ws'.scratch := by
    rw [signingInputs, signingInputs, checkSigning_eq_of_tables hReady.tables hReady'.tables]
  cases hInputs : group.signingInputs message key nonce out ws.scratch with
  | error failure => rw [run_sign_of_error hInputs, run_sign_of_error (hSame ▸ hInputs)]
  | ok scalars =>
      obtain ⟨m, x, k⟩ := scalars
      obtain ⟨wsEnd, hRun⟩ := run_sign hInputs (gives_signScalars hReady m x k)
      obtain ⟨wsEnd', hRun'⟩ := run_sign (hSame ▸ hInputs) (gives_signScalars hReady' m x k)
      rw [hRun, hRun']

theorem run_signMessage_fst_eq (hReady : ws.IsReadyToSign) (hReady' : ws'.IsReadyToSign)
    (algorithm : HashAlgorithm) (message : List UInt8) (key nonce : BufferedInt)
    (out : Signature) :
    ((group.signMessage algorithm message key nonce out).run ws).1 =
      ((group.signMessage algorithm message key nonce out).run ws').1 := by
  have hSame : group.representativeForSigning algorithm message key nonce out ws.scratch =
      group.representativeForSigning algorithm message key nonce out ws'.scratch := by
    rw [representativeForSigning, representativeForSigning,
      checkSigning_eq_of_tables hReady.tables hReady'.tables]
  rw [signMessage, StateT.run_bind, StateT.run_bind, StateT.run_get, StateT.run_get]
  simp only [pure_bind, hSame]
  split
  · rfl
  · exact run_sign_fst_eq hReady hReady' _ key nonce out

theorem sameResult_verifyComponents (hReady : ws.IsReady) (hReady' : ws'.IsReady)
    (m : FixedNat n) (key : JacobianPoint n) (components : Option (FixedNat n × FixedNat n)) :
    SameResult (group.verifyComponents m key components) ws ws' := by
  cases components with
  | none => rfl
  | some components =>
      obtain ⟨c, d⟩ := components
      rw [verifyComponents]
      split
      · rfl
      · exact (gives_verifyScalars hReady m c d key).sameResult
          (gives_verifyScalars hReady' m c d key)

theorem sameResult_verify (hReady : ws.IsReady) (hReady' : ws'.IsReady) (message : BufferedInt)
    (key : JacobianPoint n) (signature : Signature) :
    SameResult (group.verify message key signature) ws ws' := by
  rw [verify_eq]
  apply sameResult_of_inputs
  · rw [verifyingInputs, verifyingInputs,
      checkVerifying_eq_of_tables hReady.tables hReady'.tables]
  · intro m _
    exact sameResult_verifyComponents hReady hReady' m key _

theorem sameResult_verifyMessage (hReady : ws.IsReady) (hReady' : ws'.IsReady)
    (algorithm : HashAlgorithm) (message : List UInt8) (key : JacobianPoint n)
    (signature : Signature) :
    SameResult (group.verifyMessage algorithm message key signature) ws ws' := by
  rw [verifyMessage_eq]
  apply sameResult_of_inputs
  · rw [representativeForVerifying, representativeForVerifying,
      checkVerifying_eq_of_tables hReady.tables hReady'.tables]
  · intro m _
    exact sameResult_verify hReady hReady' m key signature

end CurveGroup

namespace GroupCall

/-- The workspace has the window tables and the free slots that a call uses. -/
def Fits (ws : Workspace n) : GroupCall n → Prop
  | .publicKey _ => 1 ≤ ws.scratch.capacity
  | .mulBase _ => 1 ≤ ws.scratch.capacity
  | .mulPoint _ _ => 1 ≤ ws.scratch.capacity
  | .mulBaseAndPoint _ _ _ => 2 ≤ ws.scratch.capacity
  | .sign _ _ _ _ => ws.IsReadyToSign
  | .signMessage _ _ _ _ _ => ws.IsReadyToSign
  | .verify _ _ _ => ws.IsReady
  | .verifyMessage _ _ _ _ => ws.IsReady

/-- Two runs of a call give the same answer: the same result or failure, the same buffers after
signing, and points with the same coordinates and the same element length. -/
theorem answer_eq (group : CurveGroup n) (call : GroupCall n) {ws ws' : Workspace n}
    (h : call.Fits ws) (h' : call.Fits ws') :
    ((call.make group).run ws).1 = ((call.make group).run ws').1 := by
  cases call with
  | publicKey key =>
      have hSame : Call.SameResult (group.publicKey key) ws ws' :=
        Call.sameResult_of_ofExcept fun k _ =>
          CurveGroup.sameResult_mulPoint h h' k group.generator
      rw [make, StateT.run_map, StateT.run_map]
      exact congrArg Answer.point hSame
  | mulBase k =>
      rw [make, StateT.run_map, StateT.run_map]
      exact congrArg Answer.point (CurveGroup.sameResult_mulPoint h h' k group.generator)
  | mulPoint k p =>
      rw [make, StateT.run_map, StateT.run_map]
      exact congrArg Answer.point (CurveGroup.sameResult_mulPoint h h' k p)
  | mulBaseAndPoint d c q =>
      rw [make, StateT.run_map, StateT.run_map]
      exact congrArg Answer.point (CurveGroup.sameResult_mulBaseAndPoint h h' d c q)
  | sign message key nonce out =>
      rw [make, StateT.run_map, StateT.run_map]
      exact congrArg (fun answer : _ × _ => Answer.signature answer.1 answer.2)
        (CurveGroup.run_sign_fst_eq h h' message key nonce out)
  | signMessage algorithm message key nonce out =>
      rw [make, StateT.run_map, StateT.run_map]
      exact congrArg (fun answer : _ × _ => Answer.signature answer.1 answer.2)
        (CurveGroup.run_signMessage_fst_eq h h' algorithm message key nonce out)
  | verify message key signature =>
      rw [make, StateT.run_map, StateT.run_map]
      exact congrArg Answer.verdict (CurveGroup.sameResult_verify h h' message key signature)
  | verifyMessage algorithm message key signature =>
      rw [make, StateT.run_map, StateT.run_map]
      exact congrArg Answer.verdict
        (CurveGroup.sameResult_verifyMessage h h' algorithm message key signature)

/-- A workspace that was used before: slots are handed out and written, and three window tables hold
the base point. -/
def usedWorkspace : Workspace 1 :=
  { pool := {
      elements := { slots := List.replicate 7 (.ofWord 9), live := 2 }
      points := { slots := List.replicate 3 toyGroup.generator, live := 1 } }
    scratch := { tables := List.replicate 3 (Vector.replicate tableLength toyGroup.generator) } }

/-- Signing and verifying on the toy curve, in a fresh workspace and in a used one. -/
theorem answer_eq_toyGroup :
    (((sign (.ofWord 1) (.ofWord 3) (.ofWord 7) (.blank toyGroup)).make toyGroup).run
        toyWorkspace).1 =
      (((sign (.ofWord 1) (.ofWord 3) (.ofWord 7) (.blank toyGroup)).make toyGroup).run
        usedWorkspace).1 ∧
    (((verify (.ofWord 1) toyGroup.generator toySignature).make toyGroup).run
        toyWorkspace).1 =
      (((verify (.ofWord 1) toyGroup.generator toySignature).make toyGroup).run
        usedWorkspace).1 := by
  have hFresh := isReady_toyWorkspace
  have hUsed : usedWorkspace.IsReady := ⟨by decide, by decide, by decide⟩
  exact ⟨answer_eq toyGroup (.sign _ _ _ _) hFresh.toSign hUsed.toSign,
    answer_eq toyGroup (.verify _ _ _) hFresh hUsed⟩

end GroupCall

end NybergRueppel
