import Mathlib.Tactic.IntervalCases
import NybergRueppel.Proofs.Json.Literal
import NybergRueppel.Proofs.Json.Numeral

/-!
JSON values that are written and read back. In every layout that has only blanks between the tokens,
a value is read from its text, up to what follows it. The induction is on the fuel of the reader,
which the length of a text bounds: each value takes one unit more than the values inside it, and
each entry one unit more than the entries after it.
-/
namespace NybergRueppel.Json

mutual

/-- Every numeral in a value has the digits that the grammar asks for. -/
def IsWellFormed : Json → Prop
  | .number x => x.IsWellFormed
  | .array elements => AllWellFormed elements
  | .object members => AllMembersWellFormed members
  | _ => True

def AllWellFormed : List Json → Prop
  | [] => True
  | x :: xs => IsWellFormed x ∧ AllWellFormed xs

def AllMembersWellFormed : List (Option String × Json) → Prop
  | [] => True
  | (_, x) :: xs => IsWellFormed x ∧ AllMembersWellFormed xs

end

/-- All characters are blanks. -/
def Blanks (cs : List Char) : Prop :=
  ∀ c ∈ cs, isBlank c = true

/-- There are only blanks between the tokens. -/
structure Layout.IsBlank (layout : Layout) : Prop where
  entryStart : ∀ level, Blanks (layout.entryStart level)
  nameEnd : ∃ blanks, Blanks blanks ∧ layout.nameEnd = ':' :: blanks
  closeStart : ∀ level, Blanks (layout.closeStart level)

theorem Layout.isBlank_compact : Layout.compact.IsBlank where
  entryStart _ _ h := by cases h
  nameEnd := ⟨[], (fun _ h => by cases h), rfl⟩
  closeStart _ _ h := by cases h

theorem blanks_newLine (level : Nat) : Blanks (newLine level) := by
  intro c h
  rcases List.mem_cons.mp h with rfl | h
  · rfl
  · rw [List.eq_of_mem_replicate h]
    rfl

theorem Layout.isBlank_indented : Layout.indented.IsBlank where
  entryStart level := blanks_newLine (level + 1)
  nameEnd := ⟨[' '], fun c h => by rw [List.mem_singleton.mp h]; rfl, rfl⟩
  closeStart := blanks_newLine

section Blanks

variable {blanks cs : List Char} {fuel : Nat}

theorem skipBlanks_append (h : Blanks blanks) : skipBlanks (blanks ++ cs) = skipBlanks cs := by
  rw [skipBlanks, List.dropWhile_append_of_pos h, skipBlanks]

theorem skipBlanks_cons {c : Char} (h : isBlank c = false) : skipBlanks (c :: cs) = c :: cs := by
  rw [skipBlanks, List.dropWhile_cons, h]
  rfl

/-- Blanks before a value do not matter. -/
theorem value?_append (h : Blanks blanks) : value? fuel (blanks ++ cs) = value? fuel cs := by
  cases fuel with
  | zero => rw [value?, value?]
  | succ fuel => rw [value?, value?, skipBlanks_append h]

theorem elements?_append (h : Blanks blanks) :
    elements? fuel (blanks ++ cs) = elements? fuel cs := by
  cases fuel with
  | zero => rw [elements?, elements?]
  | succ fuel => rw [elements?, elements?, value?_append h]

theorem members?_append (h : Blanks blanks) : members? fuel (blanks ++ cs) = members? fuel cs := by
  cases fuel with
  | zero => rw [members?, members?]
  | succ fuel => rw [members?, members?, skipBlanks_append h]

end Blanks

section Written

variable {layout : Layout} {level fuel : Nat} {rest : List Char}

/-- The digit that a numeral starts with tells it from the other values. -/
theorem value?_digit {d : Nat} (h : d < 10) (fuel : Nat) (cs : List Char) :
    value? (fuel + 1) (Char.ofNat (0x30 + d) :: cs) =
      numeral? false (Char.ofNat (0x30 + d) :: cs) := by
  interval_cases d <;> rfl

theorem value?_numeralChars {x : JsonNumeral} (h : x.IsWellFormed) (hRest : EndsNumeral rest) :
    value? (fuel + 1) (numeralChars x ++ rest) = some (.number x, rest) := by
  have hRead := numeral?_append h hRest
  rw [numeralChars_eq]
  simp only [List.append_assoc]
  cases hSign : x.negative with
  | true =>
      rw [hSign] at hRead
      exact hRead
  | false =>
      rw [hSign] at hRead
      rw [if_neg Bool.false_ne_true, List.nil_append]
      cases hWhole : x.whole with
      | nil => exact absurd hWhole h.whole_ne_nil
      | cons d ds =>
          rw [hWhole] at hRead
          rw [← hRead]
          exact value?_digit (h.whole_lt d (by rw [hWhole]; exact List.mem_cons_self)) fuel _

theorem literal?_nameLiteral (name : Option String) (rest : List Char) :
    ∃ cs, nameLiteral name ++ rest = '\x22' :: cs ∧ literal? cs = some (name, rest) := by
  cases name with
  | none => exact ⟨_, rfl, literal?_broken rest⟩
  | some name =>
      refine ⟨name.toList.flatMap escape ++ '\x22' :: rest, ?_, literal?_append name rest⟩
      simp only [nameLiteral, literal, List.cons_append, List.append_assoc, List.nil_append]

theorem value?_literal (name : Option String) :
    value? (fuel + 1) (nameLiteral name ++ rest) =
      some (name.elim .brokenString .string, rest) := by
  obtain ⟨cs, hText, hRead⟩ := literal?_nameLiteral name rest
  rw [hText]
  change string? cs = _
  rw [string?, hRead]
  cases name <;> rfl

/-- The first character of a value is no blank, and it does not close an array. -/
theorem exists_write_eq_cons {x : Json} (h : x.IsWellFormed) (layout : Layout) (level : Nat) :
    ∃ c cs, write layout level x = c :: cs ∧ isBlank c = false ∧ c ≠ ']' := by
  cases x with
  | null => exact ⟨_, _, rfl, rfl, by decide⟩
  | bool b => cases b <;> exact ⟨_, _, rfl, rfl, by decide⟩
  | number x =>
      rw [IsWellFormed] at h
      rw [write, numeralChars_eq]
      cases x.negative with
      | true => exact ⟨_, _, rfl, rfl, by decide⟩
      | false =>
          cases hWhole : x.whole with
          | nil => exact absurd hWhole h.whole_ne_nil
          | cons d ds =>
              have hDigit : d < 10 := h.whole_lt d (by rw [hWhole]; exact List.mem_cons_self)
              refine ⟨Char.ofNat (0x30 + d), _, rfl, ?_⟩
              interval_cases d <;> exact ⟨rfl, by decide⟩
  | string text => exact ⟨_, _, rfl, rfl, by decide⟩
  | brokenString => exact ⟨_, _, rfl, rfl, by decide⟩
  | array elements => cases elements <;> exact ⟨_, _, rfl, rfl, by decide⟩
  | object members => cases members <;> exact ⟨_, _, rfl, rfl, by decide⟩

/-- With the fuel, values are read from their texts. -/
def ReadsValues (layout : Layout) (fuel : Nat) : Prop :=
  ∀ (x : Json) (level : Nat) (rest : List Char), x.IsWellFormed → EndsNumeral rest →
    (write layout level x).length ≤ fuel →
    value? fuel (write layout level x ++ rest) = some (x, rest)

/-- With the fuel, the elements of an array are read up to its closing bracket. -/
def ReadsElements (layout : Layout) (fuel : Nat) : Prop :=
  ∀ (x : Json) (xs : List Json) (level : Nat) (rest : List Char),
    x.IsWellFormed → AllWellFormed xs →
    (write layout (level + 1) x ++ writeElements layout level xs).length < fuel →
    elements? fuel (write layout (level + 1) x ++ (writeElements layout level xs ++
      (layout.closeStart level ++ ']' :: rest))) = some (x :: xs, rest)

/-- With the fuel, the members of an object are read up to its closing brace. -/
def ReadsMembers (layout : Layout) (fuel : Nat) : Prop :=
  ∀ (name : Option String) (x : Json) (xs : List (Option String × Json)) (level : Nat)
    (rest : List Char), x.IsWellFormed → AllMembersWellFormed xs →
    (nameLiteral name ++ layout.nameEnd ++ write layout (level + 1) x ++
      writeMembers layout level xs).length < fuel →
    members? fuel (nameLiteral name ++ (layout.nameEnd ++ (write layout (level + 1) x ++
      (writeMembers layout level xs ++ (layout.closeStart level ++ '\x7d' :: rest))))) =
        some ((name, x) :: xs, rest)

/-- What closes an array or an object ends a numeral. -/
theorem endsNumeral_append {blanks : List Char} (h : Blanks blanks) {c : Char} {cs : List Char}
    (hc : EndsNumeral (c :: cs)) : EndsNumeral (blanks ++ c :: cs) := by
  cases blanks with
  | nil => exact hc
  | cons b bs =>
      intro b' hb
      cases hb
      have hBlank := h b List.mem_cons_self
      simp only [isBlank, Bool.or_eq_true, decide_eq_true_eq] at hBlank
      rcases hBlank with ((rfl | rfl) | rfl) | rfl <;> decide

section Steps

variable {text text' rest' : List Char} {x : Json} {name : Option String}

theorem elements?_more (hValue : value? fuel text = some (x, ',' :: rest)) :
    elements? (fuel + 1) text = (elements? fuel rest).map fun (xs, rest) => (x :: xs, rest) := by
  rw [elements?, hValue]
  rfl

theorem elements?_last (hValue : value? fuel text = some (x, rest))
    (hClose : skipBlanks rest = ']' :: rest') :
    elements? (fuel + 1) text = some ([x], rest') := by
  rw [elements?, hValue]
  dsimp only
  rw [hClose]
  rfl

theorem members?_more (hName : literal? text = some (name, ':' :: text'))
    (hValue : value? fuel text' = some (x, ',' :: rest)) :
    members? (fuel + 1) ('\x22' :: text) =
      (members? fuel rest).map fun (xs, rest) => ((name, x) :: xs, rest) := by
  rw [members?, skipBlanks_cons (by rfl)]
  simp only [hName]
  rw [skipBlanks_cons (by rfl)]
  simp only [hValue]
  rfl

theorem members?_last (hName : literal? text = some (name, ':' :: text'))
    (hValue : value? fuel text' = some (x, rest)) (hClose : skipBlanks rest = '\x7d' :: rest') :
    members? (fuel + 1) ('\x22' :: text) = some ([(name, x)], rest') := by
  rw [members?, skipBlanks_cons (by rfl)]
  simp only [hName]
  rw [skipBlanks_cons (by rfl)]
  simp only [hValue, hClose]

/-- An array that is not empty is read as its elements. -/
theorem value?_array {c : Char} {cs : List Char} (hText : skipBlanks text = c :: cs)
    (hc : c ≠ ']') :
    value? (fuel + 1) ('[' :: text) =
      (elements? fuel (c :: cs)).map fun (elements, rest) => (.array elements, rest) := by
  rw [value?, skipBlanks_cons (by rfl)]
  simp only [hText]
  split <;> rename_i hEq
  · exact absurd (List.cons.inj hEq).1 hc
  · rfl

/-- An object that is not empty is read as its members. -/
theorem value?_object {cs : List Char} (hText : skipBlanks text = '\x22' :: cs) :
    value? (fuel + 1) ('\x7b' :: text) =
      (members? fuel ('\x22' :: cs)).map fun (members, rest) => (.object members, rest) := by
  rw [value?, skipBlanks_cons (by rfl)]
  simp only [hText]
  rfl

end Steps

theorem endsNumeral_token {c : Char} (h : c = ',' ∨ c = ']' ∨ c = '\x7d') (cs : List Char) :
    EndsNumeral (c :: cs) := by
  rintro c' ⟨⟩
  rcases h with rfl | rfl | rfl <;> decide

theorem readsElements_succ (hLayout : layout.IsBlank) (hValues : ReadsValues layout fuel)
    (hElements : ReadsElements layout fuel) : ReadsElements layout (fuel + 1) := by
  intro x xs level rest hx hxs hFuel
  have hClose := hLayout.closeStart level
  rw [List.length_append] at hFuel
  cases xs with
  | nil =>
      have hEnds := endsNumeral_append hClose (endsNumeral_token (.inr (.inl rfl)) rest)
      have hValue := hValues x (level + 1) _ hx hEnds (by omega)
      exact elements?_last hValue (skipBlanks_append hClose)
  | cons y ys =>
      rw [writeElements] at hFuel ⊢
      simp only [List.cons_append, List.append_assoc, List.length_cons, List.length_append]
        at hFuel ⊢
      have hValue (cs : List Char) :=
        hValues x (level + 1) (',' :: cs) hx (endsNumeral_token (.inl rfl) cs) (by omega)
      have hRest := hElements y ys level rest hxs.1 hxs.2 (by
        rw [List.length_append]
        omega)
      rw [elements?_more (hValue _), elements?_append (hLayout.entryStart level), hRest]
      rfl

theorem readsMembers_succ (hLayout : layout.IsBlank) (hValues : ReadsValues layout fuel)
    (hMembers : ReadsMembers layout fuel) : ReadsMembers layout (fuel + 1) := by
  intro name x xs level rest hx hxs hFuel
  have hClose := hLayout.closeStart level
  obtain ⟨blanks, hBlanks, hNameEnd⟩ := hLayout.nameEnd
  simp only [List.length_append] at hFuel
  obtain ⟨cs, hText, hName⟩ := literal?_nameLiteral name (layout.nameEnd ++
    (write layout (level + 1) x ++ (writeMembers layout level xs ++
      (layout.closeStart level ++ '\x7d' :: rest))))
  rw [hText]
  rw [hNameEnd, List.cons_append] at hName
  cases xs with
  | nil =>
      have hEnds := endsNumeral_append hClose (endsNumeral_token (.inr (.inr rfl)) rest)
      have hValue := hValues x (level + 1) _ hx hEnds (by omega)
      exact members?_last hName ((value?_append hBlanks).trans hValue) (skipBlanks_append hClose)
  | cons entry xs =>
      obtain ⟨name', y⟩ := entry
      rw [writeMembers] at hFuel hName
      simp only [List.cons_append, List.append_assoc, List.length_cons, List.length_append]
        at hFuel hName
      have hValue (cs : List Char) :=
        hValues x (level + 1) (',' :: cs) hx (endsNumeral_token (.inl rfl) cs) (by omega)
      have hRest := hMembers name' y xs level rest hxs.1 hxs.2 (by
        simp only [List.length_append]
        omega)
      rw [members?_more hName ((value?_append hBlanks).trans (hValue _)),
        members?_append (hLayout.entryStart level), hRest]
      rfl

theorem readsValues_succ (hLayout : layout.IsBlank) (hElements : ReadsElements layout fuel)
    (hMembers : ReadsMembers layout fuel) : ReadsValues layout (fuel + 1) := by
  intro x level rest hx hRest hFuel
  cases x with
  | null => rfl
  | bool b => cases b <;> rfl
  | number x => exact value?_numeralChars hx hRest
  | string text => exact value?_literal (some text)
  | brokenString => exact value?_literal none
  | array elements =>
      cases elements with
      | nil => rfl
      | cons x xs =>
          obtain ⟨c, cs, hWritten, hBlank, hc⟩ := exists_write_eq_cons hx.1 layout (level + 1)
          have hEntries := hElements x xs level rest hx.1 hx.2
          rw [write] at hFuel ⊢
          simp only [List.cons_append, List.append_assoc, List.nil_append, List.length_cons,
            List.length_append] at hFuel hEntries ⊢
          rw [hWritten, List.cons_append] at hEntries ⊢
          rw [hWritten] at hFuel
          rw [value?_array ((skipBlanks_append (hLayout.entryStart level)).trans
            (skipBlanks_cons hBlank)) hc, hEntries (by omega)]
          rfl
  | object members =>
      cases members with
      | nil => rfl
      | cons entry xs =>
          obtain ⟨name, x⟩ := entry
          have hEntries := hMembers name x xs level rest hx.1 hx.2
          rw [write] at hFuel ⊢
          simp only [List.cons_append, List.append_assoc, List.nil_append, List.length_cons,
            List.length_append] at hFuel hEntries ⊢
          obtain ⟨cs, hText, -⟩ := literal?_nameLiteral name (layout.nameEnd ++
            (write layout (level + 1) x ++ (writeMembers layout level xs ++
              (layout.closeStart level ++ '\x7d' :: rest))))
          rw [hText] at hEntries ⊢
          rw [value?_object ((skipBlanks_append (hLayout.entryStart level)).trans
            (skipBlanks_cons (by rfl))), hEntries (by omega)]
          rfl

/-- No value has an empty text. -/
theorem not_length_write_le_zero {x : Json} (h : x.IsWellFormed) :
    ¬(write layout level x).length ≤ 0 := by
  obtain ⟨c, cs, hWritten, -⟩ := exists_write_eq_cons h layout level
  rw [hWritten]
  exact Nat.not_succ_le_zero _

theorem reads (hLayout : layout.IsBlank) (fuel : Nat) :
    ReadsValues layout fuel ∧ ReadsElements layout fuel ∧ ReadsMembers layout fuel := by
  induction fuel with
  | zero =>
      refine ⟨?_, ?_, ?_⟩
      · intro x level rest hx _ hFuel
        exact absurd hFuel (not_length_write_le_zero hx)
      · intro x xs level rest _ _ hFuel
        exact absurd hFuel (Nat.not_lt_zero _)
      · intro name x xs level rest _ _ hFuel
        exact absurd hFuel (Nat.not_lt_zero _)
  | succ fuel ih =>
      obtain ⟨hValues, hElements, hMembers⟩ := ih
      exact ⟨readsValues_succ hLayout hElements hMembers,
        readsElements_succ hLayout hValues hElements, readsMembers_succ hLayout hValues hMembers⟩

end Written

/-- A value is read from its text in any layout that has only blanks between the tokens. -/
theorem read?_write {layout : Layout} (hLayout : layout.IsBlank) {x : Json} (h : x.IsWellFormed) :
    read? (String.ofList (write layout 0 x)) = some x := by
  have hEnds : EndsNumeral [] := fun c hc => by cases hc
  have hRead := (reads hLayout (2 * (write layout 0 x).length + 2)).1 x 0 [] h hEnds (by omega)
  rw [List.append_nil] at hRead
  rw [read?, String.toList_ofList, hRead]
  rfl

/-- The texts that a value is written as. -/
def writtenTexts (x : Json) : List String :=
  [x.compactText, x.indentedText]

theorem read?_of_mem_writtenTexts {x : Json} (h : x.IsWellFormed) {text : String}
    (hText : text ∈ x.writtenTexts) : read? text = some x := by
  rcases List.mem_pair.mp hText with rfl | rfl
  · exact read?_write Layout.isBlank_compact h
  · exact read?_write Layout.isBlank_indented h

end NybergRueppel.Json
