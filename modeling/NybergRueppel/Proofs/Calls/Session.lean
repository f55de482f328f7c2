import NybergRueppel.Proofs.Calls.Basic
import NybergRueppel.Proofs.Calls.Lending
import NybergRueppel.Proofs.Signature.Sign

/-!
Sessions of a caller who makes calls and holds slots of the pool between them. Whatever the caller
does, the slots that are handed out are those of the held ranges, one on top of the other, and all
others are clear; a call, whether it succeeds or not, leaves everything as it was.
-/
namespace NybergRueppel

variable {n : Nat}

namespace CurveGroup

variable {group : CurveGroup n} {ws : Workspace n}

theorem run_sign_snd (hClean : ws.IsClean) (message key nonce : BufferedInt) (out : Signature) :
    ((group.sign message key nonce out).run ws).2 = ws := by
  cases hInputs : group.signingInputs message key nonce out ws.scratch with
  | error failure => rw [run_sign_of_error hInputs]
  | ok scalars =>
      obtain ⟨m, x, k⟩ := scalars
      rw [run_sign_of_ends hInputs rfl]
      exact (keeps_signScalars hClean m x k).snd_eq

theorem run_signMessage_snd (hClean : ws.IsClean) (algorithm : HashAlgorithm)
    (message : List UInt8) (key nonce : BufferedInt) (out : Signature) :
    ((group.signMessage algorithm message key nonce out).run ws).2 = ws := by
  rw [signMessage, StateT.run_bind, StateT.run_get]
  simp only [pure_bind]
  split
  · rfl
  · exact run_sign_snd hClean _ key nonce out

end CurveGroup

/-- A call that starts in a clean workspace leaves it exactly as it was, however the call ends. -/
theorem GroupCall.run_make_snd (group : CurveGroup n) (call : GroupCall n) {ws : Workspace n}
    (hClean : ws.IsClean) : ((call.make group).run ws).2 = ws := by
  cases call with
  | publicKey key =>
      rw [make, StateT.run_map]
      exact (CurveGroup.keeps_publicKey hClean key).snd_eq
  | mulBase k =>
      rw [make, StateT.run_map]
      exact (CurveGroup.keeps_mulPoint hClean.scratch k group.generator).snd_eq
  | mulPoint k p =>
      rw [make, StateT.run_map]
      exact (CurveGroup.keeps_mulPoint hClean.scratch k p).snd_eq
  | mulBaseAndPoint d c q =>
      rw [make, StateT.run_map]
      exact (CurveGroup.keeps_mulBaseAndPoint hClean.scratch d c q).snd_eq
  | sign message key nonce out =>
      rw [make, StateT.run_map]
      exact CurveGroup.run_sign_snd hClean message key nonce out
  | signMessage algorithm message key nonce out =>
      rw [make, StateT.run_map]
      exact CurveGroup.run_signMessage_snd hClean algorithm message key nonce out
  | verify message key signature =>
      rw [make, StateT.run_map]
      exact (CurveGroup.keeps_verify hClean message key signature).snd_eq
  | verifyMessage algorithm message key signature =>
      rw [make, StateT.run_map]
      exact (CurveGroup.keeps_verifyMessage hClean algorithm message key signature).snd_eq

/-- A stack of slots with the ranges of it that a caller holds, the newest first. -/
structure GuardedStack (α : Type) where
  stack : SlotStack α
  held : List SlotRange

namespace GuardedStack

variable {α : Type} [Inhabited α]

/-- Takes the next slots, if so many are free. -/
def acquire (guarded : GuardedStack α) (count : Nat) : GuardedStack α :=
  match guarded.stack.acquire? count with
  | some (range, stack) => { stack := stack, held := range :: guarded.held }
  | none => guarded

/-- Writes a slot of one of the held ranges, which are counted from the newest on. -/
def write (guarded : GuardedStack α) (holder i : Nat) (value : α) : GuardedStack α :=
  match guarded.held[holder]? with
  | some range =>
    match guarded.stack.set? range i value with
    | some stack => { guarded with stack := stack }
    | none => guarded
  | none => guarded

/-- Gives the newest of the held ranges back. -/
def release (guarded : GuardedStack α) : GuardedStack α :=
  match guarded.held with
  | range :: held => { stack := guarded.stack.release range, held := held }
  | [] => guarded

/-- The ranges lie one on top of the other and reach from the bottom up to a height. -/
def Tiles : List SlotRange → Nat → Prop
  | [], height => height = 0
  | range :: held, height => range.start + range.count = height ∧ Tiles held range.start

theorem Tiles.le {held : List SlotRange} {height : Nat} (h : Tiles held height)
    {range : SlotRange} (hRange : range ∈ held) : range.start + range.count ≤ height := by
  induction held generalizing height with
  | nil => cases hRange
  | cons newest held ih =>
      obtain ⟨hNewest, hRest⟩ := h
      rcases List.mem_cons.mp hRange with rfl | hOlder
      · exact hNewest.le
      · have := ih hRest hOlder
        omega

/-- The slots that are handed out are those that the caller holds, and the others are clear. -/
structure IsTidy (guarded : GuardedStack α) : Prop where
  tiles : Tiles guarded.held guarded.stack.live
  live_le : guarded.stack.live ≤ guarded.stack.capacity
  isClean : guarded.stack.IsClean

variable {guarded : GuardedStack α}

namespace IsTidy

theorem acquire (h : guarded.IsTidy) (count : Nat) : (guarded.acquire count).IsTidy := by
  by_cases hFull : guarded.stack.capacity < guarded.stack.live + count
  · rw [GuardedStack.acquire, SlotStack.acquire?_eq_none hFull]
    exact h
  · rw [GuardedStack.acquire, SlotStack.acquire?_eq_some (Nat.le_of_not_lt hFull)]
    refine ⟨⟨rfl, h.tiles⟩, Nat.le_of_not_lt hFull, ?_⟩
    intro i hi value hValue
    exact h.isClean i (Nat.le_of_add_right_le hi) value hValue

/-- Only slots that are handed out can be written. -/
theorem write (h : guarded.IsTidy) (holder i : Nat) (value : α) :
    (guarded.write holder i value).IsTidy := by
  rw [GuardedStack.write]
  split
  · rename_i range hRange
    split
    · rename_i stack hSet
      obtain ⟨hi, rfl⟩ := SlotStack.eq_write_of_set?_eq hSet
      have hTop := h.tiles.le (List.mem_of_getElem? hRange)
      exact ⟨h.tiles, h.live_le.trans_eq (SlotStack.capacity_write _ _).symm,
        h.isClean.write (by omega) value⟩
    · exact h
  · exact h

/-- Giving a range back clears its slots. -/
theorem release (h : guarded.IsTidy) : guarded.release.IsTidy := by
  obtain ⟨stack, held⟩ := guarded
  cases held with
  | nil => exact h
  | cons range held =>
      obtain ⟨⟨hTop, hTiles⟩, hLive, hClean⟩ := h
      refine ⟨hTiles, ?_, hClean.release hTop⟩
      rw [GuardedStack.release, SlotStack.capacity_release]
      exact (Nat.le_of_add_right_le hTop.le).trans hLive

end IsTidy

end GuardedStack

/-- A caller with a pool, of which it may hold slots, and with window tables. -/
structure Session (n : Nat) where
  elements : GuardedStack (FixedNat n)
  points : GuardedStack (JacobianPoint n)
  scratch : Scratch n

namespace Session

/-- The workspace that calls see. -/
def workspace (session : Session n) : Workspace n :=
  { pool := { elements := session.elements.stack, points := session.points.stack },
    scratch := session.scratch }

def usage (session : Session n) : PoolUsage :=
  session.workspace.pool.usage

/-- Makes a call. What it answers is not part of the session. -/
def call (group : CurveGroup n) (session : Session n) (call : GroupCall n) : Session n :=
  let ws := ((call.make group).run session.workspace).2
  { elements := { session.elements with stack := ws.pool.elements }
    points := { session.points with stack := ws.pool.points }
    scratch := ws.scratch }

end Session

/-- What a caller can do. -/
inductive Action (n : Nat) where
  | call (call : GroupCall n)
  | acquireElements (count : Nat)
  | acquirePoints (count : Nat)
  | writeElement (holder i : Nat) (value : FixedNat n)
  | writePoint (holder i : Nat) (value : JacobianPoint n)
  | releaseElements
  | releasePoints

namespace Session

def step (group : CurveGroup n) (session : Session n) : Action n → Session n
  | .call call => session.call group call
  | .acquireElements count => { session with elements := session.elements.acquire count }
  | .acquirePoints count => { session with points := session.points.acquire count }
  | .writeElement holder i value =>
    { session with elements := session.elements.write holder i value }
  | .writePoint holder i value => { session with points := session.points.write holder i value }
  | .releaseElements => { session with elements := session.elements.release }
  | .releasePoints => { session with points := session.points.release }

def run (group : CurveGroup n) (actions : List (Action n)) (session : Session n) : Session n :=
  actions.foldl (step group) session

structure IsTidy (session : Session n) : Prop where
  elements : session.elements.IsTidy
  points : session.points.IsTidy
  scratch : session.scratch.IsBlank

variable {session : Session n}

theorem IsTidy.call_eq (h : session.IsTidy) (group : CurveGroup n) (call : GroupCall n) :
    session.call group call = session := by
  rw [Session.call, call.run_make_snd group ⟨h.elements.isClean, h.points.isClean, h.scratch⟩]
  rfl

theorem IsTidy.step (h : session.IsTidy) (group : CurveGroup n) (action : Action n) :
    (session.step group action).IsTidy := by
  cases action with
  | call call =>
      rw [Session.step, h.call_eq]
      exact h
  | acquireElements count => exact ⟨h.elements.acquire count, h.points, h.scratch⟩
  | acquirePoints count => exact ⟨h.elements, h.points.acquire count, h.scratch⟩
  | writeElement holder i value => exact ⟨h.elements.write holder i value, h.points, h.scratch⟩
  | writePoint holder i value => exact ⟨h.elements, h.points.write holder i value, h.scratch⟩
  | releaseElements => exact ⟨h.elements.release, h.points, h.scratch⟩
  | releasePoints => exact ⟨h.elements, h.points.release, h.scratch⟩

theorem IsTidy.run (h : session.IsTidy) (group : CurveGroup n) (actions : List (Action n)) :
    (session.run group actions).IsTidy := by
  induction actions generalizing session with
  | nil => exact h
  | cons action actions ih => exact ih (h.step group action)

end Session

end NybergRueppel
