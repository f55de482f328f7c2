import NybergRueppel.Proofs.Group.Multiples
import NybergRueppel.Signature.Sign
import NybergRueppel.Signature.Verify

/-!
What a call may do to its workspace. A block with lent slots sees a workspace that differs from the
one before it in these slots only. However the block ends, its slots are cleared and given back, so
that a clean workspace is the same again; the window tables are wiped by each multiplication.
-/
namespace NybergRueppel

variable {n : Nat}

/-- No table holds anything but default points. -/
def Scratch.IsBlank (scratch : Scratch n) : Prop :=
  ∀ table ∈ scratch.tables, table = WindowTable.blank

theorem Scratch.IsBlank.wipe_eq {scratch : Scratch n} (h : scratch.IsBlank) :
    scratch.wipe = scratch := by
  obtain ⟨tables⟩ := scratch
  rw [wipe, List.map_congr_left fun table hTable => (h table hTable).symm, List.map_id']

namespace Workspace

/-- Free slots and window tables hold nothing. -/
structure IsClean (ws : Workspace n) : Prop where
  elements : ws.pool.elements.IsClean
  points : ws.pool.points.IsClean
  scratch : ws.scratch.IsBlank

/-- The second workspace is the first one with so many more integer and point slots handed out. Only
these may have been written. -/
structure Lends (base : Workspace n) (elements points : Nat) (ws : Workspace n) : Prop where
  elements : base.pool.elements.Lends elements ws.pool.elements
  points : base.pool.points.Lends points ws.pool.points
  scratch_eq : ws.scratch = base.scratch

theorem Lends.refl (base : Workspace n) : base.Lends 0 0 base :=
  ⟨.refl _, .refl _, rfl⟩

theorem Lends.eq_of_zero {base ws : Workspace n} (h : base.Lends 0 0 ws) : ws = base := by
  obtain ⟨⟨elements, points⟩, scratch⟩ := ws
  obtain rfl := h.elements.eq_of_zero
  obtain rfl := h.points.eq_of_zero
  obtain rfl := h.scratch_eq
  rfl

end Workspace

namespace Call

variable {α β : Type}

/-- However the call ends, it keeps a property of the workspace. -/
def Keeps (P : Workspace n → Prop) (call : Call n α) : Prop :=
  ∀ ws, P ws → P (call.run.run ws).2

variable {P : Workspace n → Prop}

theorem Ends.snd_eq {call : Call n α} {ws ws' : Workspace n} {result : Except Stop α}
    (h : Ends call ws result ws') : (call.run.run ws).2 = ws' :=
  congrArg Prod.snd h

theorem Ends.keeps {call : Call n α} {ws ws' : Workspace n} {result : Except Stop α}
    (h : Ends call ws result ws') (hKept : P ws') : P (call.run.run ws).2 := by
  rwa [h.snd_eq]

/-- A call that gives back what it takes leaves the workspace exactly as it was. -/
theorem Keeps.snd_eq {base : Workspace n} {call : Call n α} (h : Keeps (base.Lends 0 0) call) :
    (call.run.run base).2 = base :=
  (h base (.refl base)).eq_of_zero

theorem keeps_pure (a : α) : Keeps P (pure a) :=
  fun _ h => h

theorem keeps_get : Keeps P get :=
  fun _ h => h

theorem keeps_fail (failure : Failure) : Keeps P (fail failure : Call n α) :=
  fun _ h => h

theorem keeps_ofExcept (step : Except Failure α) : Keeps P (ofExcept step) := by
  cases step with
  | error failure => exact keeps_fail failure
  | ok a => exact keeps_pure a

theorem keeps_ofFaulty (step : Except Fault α) : Keeps P (ofFaulty step) := by
  cases step with
  | error fault => exact fun _ h => h
  | ok a => exact keeps_pure a

theorem Keeps.bind {call : Call n α} {next : α → Call n β} (h : Keeps P call)
    (hNext : ∀ a, Keeps P (next a)) : Keeps P (call >>= next) := by
  intro ws hws
  have hFirst := h ws hws
  cases hRun : call.run.run ws with
  | mk result ws' =>
      rw [hRun] at hFirst
      cases result with
      | error stop =>
          have hStop : Ends call ws (.error stop) ws' := hRun
          exact hStop.bind_error.keeps hFirst
      | ok a =>
          have hEnds : Ends call ws (.ok a) ws' := hRun
          have hRest : Ends (next a) ws' ((next a).run.run ws').1 ((next a).run.run ws').2 := rfl
          exact (hEnds.bind hRest).keeps (hNext a ws' hFirst)

theorem keeps_element (range : SlotRange) (i : Nat) :
    Keeps P (element range i : Call n (FixedNat n)) :=
  keeps_get.bind fun _ => keeps_ofFaulty _

theorem keeps_point (range : SlotRange) (i : Nat) :
    Keeps P (point range i : Call n (JacobianPoint n)) :=
  keeps_get.bind fun _ => keeps_ofFaulty _

/-- A faulty write changes nothing. -/
theorem keeps_write {write : Workspace n → Except Fault (SlotPool n)}
    (hWrite : ∀ ws, P ws → ∀ pool, write ws = .ok pool → P { ws with pool := pool }) :
    Keeps P (do
      let ws ← get
      let pool ← ofFaulty (write ws)
      set { ws with pool := pool }) := by
  intro ws h
  cases hWritten : write ws with
  | error fault =>
      have hStop : Ends (ofFaulty (write ws) >>= fun pool => set { ws with pool := pool }) ws
          (.error (.fault fault)) ws := by
        rw [hWritten]
        exact Ends.bind_error rfl
      exact ((ends_get ws).bind hStop).keeps h
  | ok pool =>
      have hEnds : Ends (ofFaulty (write ws) >>= fun pool => set { ws with pool := pool }) ws
          (.ok ()) { ws with pool := pool } := by
        rw [hWritten]
        exact (ends_pure _).bind ends_set
      exact ((ends_get ws).bind hEnds).keeps (hWrite ws h pool hWritten)

section Lent

variable {base : Workspace n} {e p : Nat}

/-- Only a slot of the lent range can be written. -/
theorem keeps_setElement (i : Nat) (value : FixedNat n) :
    Keeps (base.Lends e p) (setElement ⟨base.pool.elements.live, e⟩ i value) := by
  apply keeps_write
  intro ws h pool hPool
  rw [SlotPool.setElement] at hPool
  split at hPool
  · rename_i stack hSet
    obtain ⟨hi, rfl⟩ := SlotStack.eq_write_of_set?_eq hSet
    cases hPool
    exact ⟨h.elements.write hi value, h.points, h.scratch_eq⟩
  · cases hPool

theorem keeps_setPoint (i : Nat) (value : JacobianPoint n) :
    Keeps (base.Lends e p) (setPoint ⟨base.pool.points.live, p⟩ i value) := by
  apply keeps_write
  intro ws h pool hPool
  rw [SlotPool.setPoint] at hPool
  split at hPool
  · rename_i stack hSet
    obtain ⟨hi, rfl⟩ := SlotStack.eq_write_of_set?_eq hSet
    cases hPool
    exact ⟨h.elements, h.points.write hi value, h.scratch_eq⟩
  · cases hPool

/-- A block that only touches the slots that it was lent is over when they are given back. If they
are not free, the block does not run. -/
theorem keeps_withElements (hClean : base.pool.elements.IsClean) {count : Nat}
    {body : SlotRange → Call n α}
    (hBody : Keeps (base.Lends count p) (body ⟨base.pool.elements.live, count⟩)) :
    Keeps (base.Lends 0 p) (withElements count body) := by
  intro ws h
  -- Nothing is lent yet, so that the block gets the slots from the top of the first workspace on.
  have hElements : ws.pool.elements = base.pool.elements := h.elements.eq_of_zero
  rw [← hElements] at hBody
  by_cases hFull : ws.pool.elements.capacity < ws.pool.elements.live + count
  · exact (ends_withElements_of_full ws hFull).keeps h
  · have hLent : base.Lends count p
        (ws.withElementStack { ws.pool.elements with live := ws.pool.elements.live + count }) :=
      ⟨hElements ▸ .lent _ count, h.points, h.scratch_eq⟩
    obtain ⟨result, ws', hRun⟩ : ∃ result ws', Ends (body ⟨ws.pool.elements.live, count⟩)
        (ws.withElementStack { ws.pool.elements with live := ws.pool.elements.live + count })
        result ws' := ⟨_, _, rfl⟩
    have hAfter : base.Lends count p ws' := hRun.snd_eq ▸ hBody _ hLent
    have hReleased := hAfter.elements.release hClean
    rw [← hElements] at hReleased
    refine (hRun.withElements (Nat.le_of_not_lt hFull)).keeps ⟨?_, hAfter.points, hAfter.scratch_eq⟩
    rw [hReleased, hElements]
    exact .refl _

theorem keeps_withPoints (hClean : base.pool.points.IsClean) {count : Nat}
    {body : SlotRange → Call n α}
    (hBody : Keeps (base.Lends e count) (body ⟨base.pool.points.live, count⟩)) :
    Keeps (base.Lends e 0) (withPoints count body) := by
  intro ws h
  have hPoints : ws.pool.points = base.pool.points := h.points.eq_of_zero
  rw [← hPoints] at hBody
  by_cases hFull : ws.pool.points.capacity < ws.pool.points.live + count
  · exact (ends_withPoints_of_full ws hFull).keeps h
  · have hLent : base.Lends e count
        (ws.withPointStack { ws.pool.points with live := ws.pool.points.live + count }) :=
      ⟨h.elements, hPoints ▸ .lent _ count, h.scratch_eq⟩
    obtain ⟨result, ws', hRun⟩ : ∃ result ws', Ends (body ⟨ws.pool.points.live, count⟩)
        (ws.withPointStack { ws.pool.points with live := ws.pool.points.live + count })
        result ws' := ⟨_, _, rfl⟩
    have hAfter : base.Lends e count ws' := hRun.snd_eq ▸ hBody _ hLent
    have hReleased := hAfter.points.release hClean
    rw [← hPoints] at hReleased
    refine (hRun.withPoints (Nat.le_of_not_lt hFull)).keeps ⟨hAfter.elements, ?_, hAfter.scratch_eq⟩
    rw [hReleased, hPoints]
    exact .refl _

end Lent

end Call

namespace CurveGroup

open Call

variable {group : CurveGroup n} {base : Workspace n} {e p : Nat}

/-- Blank tables are blank again after they were used and wiped. -/
theorem keeps_mulPoint (hBlank : base.scratch.IsBlank) (k : FixedNat n) (q : JacobianPoint n) :
    Keeps (base.Lends e p) (group.mulPoint k q) := by
  intro ws h
  by_cases hFew : ws.scratch.capacity < 1
  · exact (ends_mulPoint_of_few ws k q hFew).keeps h
  · refine (ends_mulPoint ws k q (Nat.le_of_not_lt hFew)).keeps ⟨h.elements, h.points, ?_⟩
    rw [h.scratch_eq]
    exact hBlank.wipe_eq

theorem keeps_mulBaseAndPoint (hBlank : base.scratch.IsBlank) (d c : FixedNat n)
    (q : JacobianPoint n) : Keeps (base.Lends e p) (group.mulBaseAndPoint d c q) := by
  intro ws h
  by_cases hFew : ws.scratch.capacity < 2
  · exact (ends_mulBaseAndPoint_of_few ws d c q hFew).keeps h
  · refine (ends_mulBaseAndPoint ws d c q (Nat.le_of_not_lt hFew)).keeps
      ⟨h.elements, h.points, ?_⟩
    rw [h.scratch_eq]
    exact hBlank.wipe_eq

variable (hClean : base.IsClean)

include hClean

theorem keeps_publicKey (key : BufferedInt) :
    Keeps (base.Lends 0 0) (group.publicKey key) :=
  (keeps_ofExcept _).bind fun k => keeps_mulPoint hClean.scratch k group.generator

theorem keeps_signScalars (m x k : FixedNat n) :
    Keeps (base.Lends 0 0) (group.signScalars m x k) := by
  apply keeps_withPoints hClean.points
  refine Keeps.bind (keeps_mulPoint hClean.scratch k group.generator) fun product => ?_
  refine Keeps.bind (keeps_setPoint 0 product) fun _ => ?_
  refine Keeps.bind (keeps_point _ 0) fun product => ?_
  split
  · exact keeps_fail _
  · dsimp only
    split
    · exact keeps_fail _
    · exact keeps_pure _

theorem keeps_verifyScalars (m c d : FixedNat n) (key : JacobianPoint n) :
    Keeps (base.Lends 0 0) (group.verifyScalars m c d key) := by
  apply keeps_withElements hClean.elements
  refine Keeps.bind (keeps_setElement 0 d) fun _ => ?_
  refine Keeps.bind (keeps_setElement 1 c) fun _ => ?_
  apply keeps_withPoints hClean.points
  refine Keeps.bind (keeps_element _ 0) fun d => ?_
  refine Keeps.bind (keeps_element _ 1) fun c => ?_
  refine Keeps.bind (keeps_mulBaseAndPoint hClean.scratch d c key) fun sum => ?_
  refine Keeps.bind (keeps_setPoint 0 sum) fun _ => ?_
  refine Keeps.bind (keeps_point _ 0) fun sum => ?_
  split
  · exact keeps_pure _
  · refine Keeps.bind (keeps_element _ 1) fun c => ?_
    refine Keeps.bind (keeps_setElement 2 _) fun _ => ?_
    exact Keeps.bind (keeps_element _ 2) fun _ => keeps_pure _

theorem keeps_verify (message : BufferedInt) (key : JacobianPoint n) (signature : Signature) :
    Keeps (base.Lends 0 0) (group.verify message key signature) := by
  rw [verify]
  refine Keeps.bind keeps_get fun ws => ?_
  refine Keeps.bind (keeps_ofExcept _) fun _ => ?_
  refine Keeps.bind (keeps_ofExcept _) fun _ => ?_
  refine Keeps.bind (keeps_ofExcept _) fun m => ?_
  split
  · exact keeps_pure _
  · split
    · exact keeps_pure _
    · exact keeps_verifyScalars hClean m _ _ key

theorem keeps_verifyMessage (algorithm : HashAlgorithm) (message : List UInt8)
    (key : JacobianPoint n) (signature : Signature) :
    Keeps (base.Lends 0 0) (group.verifyMessage algorithm message key signature) := by
  rw [verifyMessage]
  refine Keeps.bind keeps_get fun ws => ?_
  refine Keeps.bind (keeps_ofExcept _) fun _ => ?_
  refine Keeps.bind (keeps_ofExcept _) fun _ => ?_
  exact Keeps.bind (keeps_ofExcept _) fun m => keeps_verify hClean m key signature

end CurveGroup

end NybergRueppel
