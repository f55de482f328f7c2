import Mathlib.Data.List.Nodup
import NybergRueppel.Json.Record
import NybergRueppel.Proofs.Json.RoundTrip

/-!
Records that are written and read back. The fields of an object with distinct names are the values
of its members, and what the parts of a record are written as is read by the readers of the parts.
-/
namespace NybergRueppel.Json

variable {members : List (String × Json)}

/-- A member as a reader finds it: its name is a text. -/
def named (entry : String × Json) : Option String × Json :=
  (some entry.1, entry.2)

theorem ofMembers_eq (members : List (String × Json)) :
    ofMembers members = .object (members.map named) :=
  rfl

/-- Of members with distinct names at most one has a given name. -/
theorem filter_map_named (hNames : (members.map Prod.fst).Nodup) (name : String) :
    (members.map named).filter (fun entry => entry.1 == some name) =
      ((members.lookup name).map fun x => named (name, x)).toList := by
  induction members with
  | nil => rfl
  | cons entry members ih =>
      obtain ⟨name', x⟩ := entry
      rw [List.map_cons, List.nodup_cons] at hNames
      rw [List.map_cons, List.filter_cons, ih hNames.2, List.lookup_cons]
      by_cases hName : name' = name
      · subst hName
        have hNone : members.lookup name' = none := by
          rw [List.lookup_eq_none_iff]
          intro entry hEntry
          rw [bne_iff_ne]
          intro hSame
          exact hNames.1 (List.mem_map.mpr ⟨entry, hEntry, hSame.symm⟩)
        simp [named, hNone]
      · have hNe : (name == name') = false := beq_false_of_ne (Ne.symm hName)
        simp [named, hName, hNe]

/-- A field of an object with distinct names is the value of the member with its name. -/
theorem member?_map_named (hNames : (members.map Prod.fst).Nodup) (name : String) :
    member? (members.map named) name = some (members.lookup name) := by
  rw [member?, filter_map_named hNames]
  cases members.lookup name <;> rfl

theorem fields?_ofMembers (hNames : (members.map Prod.fst).Nodup) (names : List String)
    (droppable : Nat) :
    fields? names droppable (ofMembers members) =
      some (names.map fun name => members.lookup name) := by
  have hTexts : (members.map named).all (fun entry => entry.1.isSome) = true := by
    simp [named]
  rw [ofMembers_eq, fields?, if_pos hTexts]
  induction names with
  | nil => rfl
  | cons name names ih =>
      rw [List.mapM_cons, member?_map_named hNames, ih]
      rfl

theorem texts?_ofTexts (texts : List String) : (ofTexts texts).texts? = some texts := by
  rw [ofTexts, texts?]
  induction texts with
  | nil => rfl
  | cons text texts ih =>
      rw [List.map_cons, List.mapM_cons, ih]
      rfl

theorem natural?_ofNat {v : Nat} (h : v < JsonNumeral.wordLimit) : (ofNat v).natural? = some v :=
  JsonNumeral.natural?_ofNat h

section WellFormed

theorem isWellFormed_ofNat (v : Nat) : (ofNat v).IsWellFormed :=
  JsonNumeral.isWellFormed_ofNat v

theorem allWellFormed_iff (xs : List Json) : AllWellFormed xs ↔ ∀ x ∈ xs, x.IsWellFormed := by
  induction xs with
  | nil => simp [AllWellFormed]
  | cons x xs ih => rw [AllWellFormed, ih, List.forall_mem_cons]

theorem isWellFormed_ofTexts (texts : List String) : (ofTexts texts).IsWellFormed := by
  rw [ofTexts, IsWellFormed, allWellFormed_iff]
  intro x hx
  obtain ⟨text, -, rfl⟩ := List.mem_map.mp hx
  trivial

theorem isWellFormed_ofMembers (h : ∀ entry ∈ members, entry.2.IsWellFormed) :
    (ofMembers members).IsWellFormed := by
  rw [ofMembers, IsWellFormed]
  induction members with
  | nil => trivial
  | cons entry members ih =>
      rw [List.forall_mem_cons] at h
      exact ⟨h.1, ih h.2⟩

end WellFormed

end NybergRueppel.Json
