import NybergRueppel.Json.Reader
import NybergRueppel.Json.Writer
import NybergRueppel.Proofs.Text.Hexadecimal

/-!
String literals that are written and read back. Every character is written as a piece of its own,
and joining the pieces gives the characters again, since no piece that is written by its number is
half of a surrogate pair.
-/
namespace NybergRueppel.Json

/-- Joining the piece in front of others gives the character. -/
def Piece.IsFor (piece : Piece) (c : Char) : Prop :=
  ∀ pieces, joinPieces? (piece :: pieces) = (joinPieces? pieces).map (c :: ·)

theorem Piece.isFor_char (c : Char) : (Piece.char c).IsFor c := by
  intro pieces
  rw [joinPieces?]

theorem Piece.isFor_unit {v : Nat} (h : v < 0xD800) : (Piece.unit v).IsFor (Char.ofNat v) := by
  have hHigh : isHighSurrogate v = false := by
    rw [isHighSurrogate, decide_eq_false (Nat.not_le.mpr h), Bool.false_and]
  have hLow : isLowSurrogate v = false := by
    rw [isLowSurrogate, decide_eq_false (by omega), Bool.false_and]
  intro pieces
  cases pieces with
  | nil => simp [joinPieces?, hHigh, hLow]
  | cons next pieces => cases next <;> simp [joinPieces?, hHigh, hLow]

/-- The escape of a control character holds its number. -/
theorem unit?_digits {v : Nat} (h : v < 0x20) :
    unit? '0' '0' (Hexadecimal.digit .lower (v / 16).toUInt64)
      (Hexadecimal.digit .lower (v % 16).toUInt64) = some v := by
  revert v
  decide +kernel

/-- A piece in front of the pieces that follow. -/
def consPiece (piece : Piece) : List Piece × List Char → List Piece × List Char :=
  fun (pieces, rest) => (piece :: pieces, rest)

theorem pieces?_simpleEscape {e c : Char} (he : e ≠ 'u') (h : simpleEscape? e = some c)
    (rest : List Char) :
    pieces? ('\x5c' :: e :: rest) = (pieces? rest).map (consPiece (.char c)) := by
  rw [pieces?]
  · rw [h]
    cases pieces? rest <;> rfl
  · rintro _ _ _ _ _ hCons
    exact absurd hCons he

theorem pieces?_unit {a b c d : Char} {v : Nat} (h : unit? a b c d = some v) (rest : List Char) :
    pieces? ('\x5c' :: 'u' :: a :: b :: c :: d :: rest) =
      (pieces? rest).map (consPiece (.unit v)) := by
  rw [pieces?, h]
  cases pieces? rest <;> rfl

theorem pieces?_char {c : Char} (hQuote : c ≠ '\x22') (hBackslash : c ≠ '\x5c')
    (hControl : ¬c.toNat < 0x20) (rest : List Char) :
    pieces? (c :: rest) = (pieces? rest).map (consPiece (.char c)) := by
  rw [pieces?]
  · rw [if_neg (by simp [hBackslash, hControl])]
    rfl
  · exact hQuote
  · rintro _ _ _ _ _ hCons
    exact absurd hCons hBackslash
  · rintro _ _ hCons
    exact absurd hCons hBackslash

/-- A character is written by an escape of its own, by its number or as it is. -/
theorem escape_cases (c : Char) :
    (∃ e, escape c = ['\x5c', e] ∧ e ≠ 'u' ∧ simpleEscape? e = some c) ∨
    (c.toNat < 0x20 ∧ escape c = ['\x5c', 'u', '0', '0',
      Hexadecimal.digit .lower (c.toNat / 16).toUInt64,
      Hexadecimal.digit .lower (c.toNat % 16).toUInt64]) ∨
    ((c ≠ '\x22' ∧ c ≠ '\x5c' ∧ ¬c.toNat < 0x20) ∧ escape c = [c]) := by
  rw [escape]
  iterate 7
    split
    · rename_i hc
      exact .inl ⟨_, rfl, by decide, by rw [hc]; rfl⟩
  split <;> rename_i hControl
  · exact .inr (.inl ⟨hControl, rfl⟩)
  · exact .inr (.inr ⟨⟨‹_›, ‹_›, hControl⟩, rfl⟩)

/-- A character is written as one piece. -/
theorem exists_piece (c : Char) :
    ∃ piece : Piece, piece.IsFor c ∧
      ∀ rest, pieces? (escape c ++ rest) = (pieces? rest).map (consPiece piece) := by
  rcases escape_cases c with
    ⟨e, hEscape, he, hSimple⟩ | ⟨hControl, hEscape⟩ | ⟨⟨hQuote, hBackslash, hControl⟩, hEscape⟩
  · rw [hEscape]
    exact ⟨.char c, Piece.isFor_char c, pieces?_simpleEscape he hSimple⟩
  · rw [hEscape]
    refine ⟨.unit c.toNat, ?_, pieces?_unit (unit?_digits hControl)⟩
    have hPiece := Piece.isFor_unit (v := c.toNat) (by omega)
    rwa [Char.ofNat_toNat] at hPiece
  · rw [hEscape]
    exact ⟨.char c, Piece.isFor_char c, pieces?_char hQuote hBackslash hControl⟩

/-- The characters of a literal are read up to its closing quote. -/
theorem pieces?_append (cs rest : List Char) :
    ∃ pieces, pieces? (cs.flatMap escape ++ '\x22' :: rest) = some (pieces, rest) ∧
      joinPieces? pieces = some cs := by
  induction cs with
  | nil => exact ⟨[], rfl, rfl⟩
  | cons c cs ih =>
      obtain ⟨pieces, hPieces, hJoin⟩ := ih
      obtain ⟨piece, hPiece, hRead⟩ := exists_piece c
      refine ⟨piece :: pieces, ?_, ?_⟩
      · rw [List.flatMap_cons, List.append_assoc, hRead, hPieces]
        rfl
      · rw [hPiece, hJoin]
        rfl

theorem literal?_append (text : String) (rest : List Char) :
    literal? (text.toList.flatMap escape ++ '\x22' :: rest) = some (some text, rest) := by
  obtain ⟨pieces, hPieces, hJoin⟩ := pieces?_append text.toList rest
  rw [literal?, hPieces, Option.map_some]
  dsimp only
  rw [hJoin, Option.map_some, String.ofList_toList]

/-- The literal for what is no text is read as such. -/
theorem literal?_broken (rest : List Char) :
    literal? (['\x5c', 'u', 'd', '8', '0', '0', '\x22'] ++ rest) = some (none, rest) := by
  have hUnit : unit? 'd' '8' '0' '0' = some 0xD800 := by decide +kernel
  have hPieces : pieces? ('\x22' :: rest) = some ([], rest) := rfl
  have hRead : pieces? (['\x5c', 'u', 'd', '8', '0', '0', '\x22'] ++ rest) =
      some ([.unit 0xD800], rest) := by
    have hRead := pieces?_unit hUnit ('\x22' :: rest)
    rwa [hPieces] at hRead
  rw [literal?, hRead]
  rfl

end NybergRueppel.Json
