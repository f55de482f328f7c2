import NybergRueppel.Proofs.Word

/-!
A machine that checks what it does. An operation that is not defined on all its operands (a place of
a list, a difference of sizes, a sum that may not wrap, a shift, an assertion) is carried out here
only where it is defined, and stops the machine elsewhere. Sizes and places are counted by natural
numbers; words and double words have their widths.
-/
namespace NybergRueppel

/-- Why the machine stops. -/
inductive Trap where
  /-- A place or a range that a list does not have. -/
  | outOfBounds
  /-- A result that its type cannot hold, or a shift by the width of a word or more. -/
  | overflow
  | divisionByZero
  | failedAssertion
  deriving DecidableEq

/-- The steps of a machine that stops at a trap. -/
abbrev Checked := Except Trap

namespace Checked

variable {α β σ : Type}

/-- The item at a place of a list. -/
def read (xs : List α) (i : Nat) : Checked α :=
  match xs[i]? with
  | some x => .ok x
  | none => .error .outOfBounds

/-- Overwrites the item at a place of a list. -/
def write (xs : List α) (i : Nat) (x : α) : Checked (List α) :=
  if i < xs.length then .ok (xs.set i x) else .error .outOfBounds

/-- Changes the item at a place of a list. -/
def update (xs : List α) (i : Nat) (change : α → α) : Checked (List α) := do
  write xs i (change (← read xs i))

/-- The items from the place `start` up to the place `stop`. -/
def slice (xs : List α) (start stop : Nat) : Checked (List α) :=
  if start ≤ stop ∧ stop ≤ xs.length then .ok ((xs.take stop).drop start)
  else .error .outOfBounds

/-- Overwrites the lowest items of a list with those of another. -/
def overwrite (xs ys : List α) : Checked (List α) :=
  if ys.length ≤ xs.length then .ok (ys ++ xs.drop ys.length) else .error .outOfBounds

/-- What has to hold for the machine to go on. -/
def demand (holds : Bool) (trap : Trap) : Checked Unit :=
  if holds then .ok () else .error trap

/-- The difference of two sizes. -/
def difference (a b : Nat) : Checked Nat :=
  if b ≤ a then .ok (a - b) else .error .overflow

/-- The sum of two words, which has to be a word. -/
def addWords (a b : UInt64) : Checked UInt64 :=
  if a.toNat + b.toNat < Word.base then .ok (a + b) else .error .overflow

/-- A number as a double word, which it has to fit into. -/
def wide (v : Nat) : Checked Word.Double :=
  if v < 2 ^ 128 then
    .ok { low := UInt64.ofNat (v % Word.base), high := UInt64.ofNat (v / Word.base) }
  else .error .overflow

def shiftUp (w : UInt64) (s : Nat) : Checked UInt64 :=
  if s < 64 then .ok (w <<< s.toUInt64) else .error .overflow

def shiftDown (w : UInt64) (s : Nat) : Checked UInt64 :=
  if s < 64 then .ok (w >>> s.toUInt64) else .error .overflow

@[simp]
theorem ok_bind (a : α) (next : α → Checked β) : (.ok a >>= next) = next a := rfl

@[simp]
theorem map_ok (f : α → β) (a : α) : f <$> (.ok a : Checked α) = .ok (f a) := rfl

@[simp]
theorem pure_eq_ok (a : α) : (pure a : Checked α) = .ok a := rfl

theorem read_eq_ok {xs : List α} {i : Nat} (h : i < xs.length) : read xs i = .ok xs[i] := by
  rw [read, List.getElem?_eq_getElem h]

theorem read_eq_getD {xs : List α} {i : Nat} (h : i < xs.length) (fallback : α) :
    read xs i = .ok (xs.getD i fallback) := by
  rw [read_eq_ok h, List.getD_eq_getElem?_getD, List.getElem?_eq_getElem h, Option.getD_some]

theorem read_zero (x : α) (xs : List α) : read (x :: xs) 0 = .ok x := rfl

theorem read_succ (x : α) (xs : List α) (i : Nat) : read (x :: xs) (i + 1) = read xs i := rfl

/-- What a loop has not yet overwritten is as it was. -/
theorem read_append_drop {done : List α} {i j : Nat} (hDone : done.length = i) (h : i ≤ j)
    (xs : List α) : read (done ++ xs.drop i) j = read xs j := by
  rw [read, List.getElem?_append_right (hDone.trans_le h), List.getElem?_drop, hDone,
    Nat.add_sub_of_le h]
  rfl

theorem write_eq_ok {xs : List α} {i : Nat} (h : i < xs.length) (x : α) :
    write xs i x = .ok (xs.set i x) :=
  if_pos h

theorem write_append {done : List α} {i : Nat} (h : done.length = i) (x y : α) (rest : List α) :
    write (done ++ y :: rest) i x = .ok (done ++ x :: rest) := by
  rw [write_eq_ok, List.set_append_right i x h.le, h, Nat.sub_self, List.set_cons_zero]
  rw [List.length_append, List.length_cons, h]
  omega

section Above

variable {below : List α} {i : Nat} (hBelow : below.length = i) (xs : List α) (j : Nat)

include hBelow

/-- The places above a list are those of what follows it. -/
theorem read_append_add : read (below ++ xs) (i + j) = read xs j := by
  rw [read, List.getElem?_append_right (hBelow ▸ Nat.le_add_right i j), hBelow,
    Nat.add_sub_cancel_left]
  rfl

theorem write_append_add (x : α) :
    write (below ++ xs) (i + j) x = (below ++ ·) <$> write xs j x := by
  have hAbove : below.length ≤ i + j := hBelow ▸ Nat.le_add_right i j
  rw [write, write, List.length_append, List.set_append_right _ _ hAbove, hBelow,
    Nat.add_sub_cancel_left]
  by_cases hj : j < xs.length
  · rw [if_pos hj, if_pos (by omega), map_ok]
  · rw [if_neg hj, if_neg (by omega)]
    rfl

end Above

theorem update_eq_ok {xs : List α} {i : Nat} (h : i < xs.length) (change : α → α) (fallback : α) :
    update xs i change = .ok (xs.set i (change (xs.getD i fallback))) := by
  rw [update, read_eq_getD h fallback, ok_bind, write_eq_ok h]

theorem update_append {done : List α} {i : Nat} (h : done.length = i) (change : α → α) (y : α)
    (rest : List α) : update (done ++ y :: rest) i change = .ok (done ++ change y :: rest) := by
  have hRead : read (done ++ y :: rest) i = .ok y := by
    rw [read, List.getElem?_append_right h.le, h, Nat.sub_self]
    rfl
  rw [update, hRead, ok_bind, write_append h]

theorem slice_zero {xs : List α} {stop : Nat} (h : stop ≤ xs.length) :
    slice xs 0 stop = .ok (xs.take stop) := by
  rw [slice, if_pos ⟨Nat.zero_le _, h⟩, List.drop_zero]

theorem slice_length {xs : List α} {start : Nat} (h : start ≤ xs.length) :
    slice xs start xs.length = .ok (xs.drop start) := by
  rw [slice, if_pos ⟨h, Nat.le_refl _⟩, List.take_length]

theorem overwrite_eq_ok {xs ys : List α} (h : ys.length ≤ xs.length) :
    overwrite xs ys = .ok (ys ++ xs.drop ys.length) :=
  if_pos h

theorem demand_eq_ok {holds : Bool} (h : holds = true) (trap : Trap) :
    demand holds trap = .ok () :=
  if_pos h

theorem difference_eq_ok {a b : Nat} (h : b ≤ a) : difference a b = .ok (a - b) :=
  if_pos h

/-- A double word is the only one with its number. -/
theorem wide_eq_ok {v : Nat} {d : Word.Double} (h : d.toNat = v) : wide v = .ok d := by
  have hLow := d.low.toNat_lt
  have hHigh := d.high.toNat_lt
  rw [Word.Double.toNat, Word.base_eq] at h
  have hLowWord : UInt64.ofNat (v % Word.base) = d.low := by
    rw [← UInt64.toNat_inj, UInt64.toNat_ofNat', Word.base_eq]
    omega
  have hHighWord : UInt64.ofNat (v / Word.base) = d.high := by
    rw [← UInt64.toNat_inj, UInt64.toNat_ofNat', Word.base_eq]
    omega
  rw [wide, if_pos (by omega), hLowWord, hHighWord]

theorem shiftUp_eq_ok (w : UInt64) {s : Nat} (h : s < 64) :
    shiftUp w s = .ok (w <<< s.toUInt64) :=
  if_pos h

theorem shiftDown_eq_ok (w : UInt64) {s : Nat} (h : s < 64) :
    shiftDown w s = .ok (w >>> s.toUInt64) :=
  if_pos h

section Loops

variable {body : σ → Nat → Checked σ} (value : Nat → σ)

/-- A loop runs through if every step takes the value of its place to that of the next place. -/
theorem foldlM_range' {start count : Nat}
    (h : ∀ i, start ≤ i → i < start + count → body (value i) i = .ok (value (i + 1))) :
    (List.range' start count).foldlM body (value start) = .ok (value (start + count)) := by
  induction count generalizing start with
  | zero => rfl
  | succ count ih =>
      rw [List.range'_succ, List.foldlM_cons, h start (Nat.le_refl _) (by omega), ok_bind,
        ih fun i hi hLess => h i (by omega) (by omega), Nat.add_right_comm start 1 count]
      rfl

theorem foldlM_range {count : Nat} (h : ∀ i < count, body (value i) i = .ok (value (i + 1))) :
    (List.range count).foldlM body (value 0) = .ok (value count) := by
  rw [List.range_eq_range', foldlM_range' value fun i _ hLess => h i (by omega), Nat.zero_add]

/-- A loop that puts the items of a list into the lowest places. Those above them stay as they
are. -/
theorem foldlM_fill {body : List α → Nat → Checked (List α)} {xs : List α} {blank : α} {room : Nat}
    (hRoom : xs.length ≤ room)
    (h : ∀ i (hi : i < xs.length) (done rest : List α), done.length = i →
      body (done ++ blank :: rest) i = .ok (done ++ xs[i] :: rest)) :
    (List.range xs.length).foldlM body (List.replicate room blank) =
      .ok (xs ++ List.replicate (room - xs.length) blank) := by
  let filled (i : Nat) : List α := xs.take i ++ List.replicate (room - i) blank
  have hEnd : filled xs.length = xs ++ List.replicate (room - xs.length) blank := by
    simp only [filled, List.take_length]
  rw [← hEnd]
  apply foldlM_range filled
  intro i hi
  have hNext : List.replicate (room - i) blank =
      blank :: List.replicate (room - (i + 1)) blank := by
    rw [← List.replicate_succ]
    congr 1
    omega
  simp only [filled]
  rw [hNext, h i hi _ _ (List.length_take_of_le hi.le), List.take_succ_eq_append_getElem hi,
    List.append_assoc, List.singleton_append]

/-- A loop that goes down to the lowest place runs through in the same way. -/
theorem foldrM_range {body : Nat → σ → Checked σ} {count : Nat}
    (h : ∀ i < count, body i (value (i + 1)) = .ok (value i)) :
    (List.range count).foldrM body (value count) = .ok (value 0) := by
  induction count with
  | zero => rfl
  | succ count ih =>
      rw [List.range_succ, List.foldrM_append, List.foldrM_cons, List.foldrM_nil, pure_eq_ok,
        ok_bind, h count (Nat.lt_succ_self count), ok_bind]
      exact ih fun i hi => h i (Nat.lt_succ_of_lt hi)

/-- A loop whose steps do not stop is a fold. The condition `P` is one that the steps keep and that
they may rely on. -/
theorem foldlM_eq_foldl {P : σ → Prop} {body : σ → α → Checked σ} {step : σ → α → σ} {xs : List α}
    (h : ∀ s, P s → ∀ x ∈ xs, body s x = .ok (step s x) ∧ P (step s x)) {s : σ} (hs : P s) :
    xs.foldlM body s = .ok (xs.foldl step s) ∧ P (xs.foldl step s) := by
  induction xs generalizing s with
  | nil => exact ⟨rfl, hs⟩
  | cons x xs ih =>
      obtain ⟨hStep, hNext⟩ := h s hs x List.mem_cons_self
      rw [List.foldlM_cons, hStep, ok_bind, List.foldl_cons]
      exact ih (fun s hs y hy => h s hs y (List.mem_cons_of_mem x hy)) hNext

/-- A loop on one form of the state does what it does on another. -/
theorem foldlM_map_state {τ : Type} {f : τ → σ} {body : σ → α → Checked σ}
    {g : τ → α → Checked τ} (h : ∀ t x, body (f t) x = f <$> g t x) (t : τ)
    (xs : List α) : xs.foldlM body (f t) = f <$> xs.foldlM g t := by
  induction xs generalizing t with
  | nil => rfl
  | cons x xs ih =>
      rw [List.foldlM_cons, h, List.foldlM_cons]
      cases g t x with
      | error trap => rfl
      | ok next => exact ih next

/-- The same for a loop on another form of the state. -/
theorem foldlM_map {τ : Type} {f : τ → σ} {body : σ → α → Checked σ} {step : τ → α → τ}
    {xs : List α}
    (h : ∀ t, ∀ x ∈ xs, body (f t) x = .ok (f (step t x))) (t : τ) :
    xs.foldlM body (f t) = .ok (f (xs.foldl step t)) := by
  induction xs generalizing t with
  | nil => rfl
  | cons x xs ih =>
      rw [List.foldlM_cons, h t x List.mem_cons_self, ok_bind, List.foldl_cons]
      exact ih (fun t y hy => h t y (List.mem_cons_of_mem x hy)) (step t x)

theorem foldrM_eq_foldr {P : σ → Prop} {body : α → σ → Checked σ} {step : α → σ → σ} {xs : List α}
    (h : ∀ s, P s → ∀ x ∈ xs, body x s = .ok (step x s) ∧ P (step x s)) {s : σ} (hs : P s) :
    xs.foldrM body s = .ok (xs.foldr step s) ∧ P (xs.foldr step s) := by
  induction xs with
  | nil => exact ⟨rfl, hs⟩
  | cons x xs ih =>
      obtain ⟨hRest, hKept⟩ := ih fun s hs y hy => h s hs y (List.mem_cons_of_mem x hy)
      rw [List.foldrM_cons, hRest, ok_bind, List.foldr_cons]
      exact h _ hKept x List.mem_cons_self

end Loops

end Checked

end NybergRueppel
