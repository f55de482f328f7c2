import NybergRueppel.Proofs.Curve.RingPoint
import NybergRueppel.Proofs.Field.Construction
import NybergRueppel.Proofs.Group.OfParameters
import NybergRueppel.Proofs.Parameters

/-!
What a parameter set has to satisfy. The requirements are conditions on the numbers that it writes;
those on the curve and the base point are equations in the ring of the remainders modulo the
polynomial of the field. The constructor looks at them in a fixed order: it succeeds if all are met,
and its failure is of the kind that belongs to the first one that is not.
-/
namespace NybergRueppel

open Hexadecimal Polynomial

/-- The text is a numeral for a number that fits into `n` limbs. -/
def IsReadable (n : Nat) (text : String) : Prop :=
  ∃ value < Word.base ^ n, IsNumeral text value

/-- The number that a text stands for. -/
def writtenNumber (n : Nat) (text : String) : FixedNat n :=
  (FixedNat.ofHex? n text).getD 0

variable {n : Nat} {text : String}

theorem ofHex?_of_isReadable (h : IsReadable n text) :
    FixedNat.ofHex? n text = some (writtenNumber n text) := by
  obtain ⟨value, hValue, hNumeral⟩ := h
  obtain ⟨a, rfl⟩ := FixedNat.exists_toNat_eq hValue
  rw [writtenNumber, FixedNat.ofHex?_eq_some_iff.mpr hNumeral, Option.getD_some]

/-- A text that can be read is a numeral for the number that it stands for. -/
theorem isNumeral_writtenNumber (h : IsReadable n text) :
    IsNumeral text (writtenNumber n text).toNat :=
  FixedNat.ofHex?_eq_some_iff.mp (ofHex?_of_isReadable h)

theorem ofHex?_of_not_isReadable (h : ¬IsReadable n text) : FixedNat.ofHex? n text = none := by
  rw [Option.eq_none_iff_forall_ne_some]
  intro a hRead
  exact h ⟨a.toNat, a.toNat_lt, FixedNat.ofHex?_eq_some_iff.mp hRead⟩

theorem readNumber_cases (n : Nat) (quantity : Quantity) (text : String) :
    (IsReadable n text ∧ readNumber n quantity text = .ok (writtenNumber n text)) ∨
      (¬IsReadable n text ∧
        readNumber n quantity text = .error (.undecodable (.badNumber quantity text))) := by
  by_cases h : IsReadable n text
  · exact .inl ⟨h, by rw [readNumber, ofHex?_of_isReadable h]⟩
  · exact .inr ⟨h, by rw [readNumber, ofHex?_of_not_isReadable h]⟩

/-- A list of texts is read as the numbers that they stand for, or one of them cannot be read. -/
theorem readNumbers_cases (n : Nat) (quantity : Quantity) (texts : List String) :
    ((∀ text ∈ texts, IsReadable n text) ∧
      readNumbers n quantity texts = .ok (texts.map (writtenNumber n))) ∨
    (¬(∀ text ∈ texts, IsReadable n text) ∧
      ∃ failure, readNumbers n quantity texts = .error failure ∧ failure.kind = .undecodable) := by
  induction texts with
  | nil => exact .inl ⟨by simp, rfl⟩
  | cons text texts ih =>
      have hCons : readNumbers n quantity (text :: texts) = (do
          let a ← readNumber n quantity text
          let as ← readNumbers n quantity texts
          return a :: as) := List.mapM_cons
      rw [hCons, List.forall_mem_cons]
      rcases readNumber_cases n quantity text with ⟨hText, hRead⟩ | ⟨hText, hRead⟩
      · rw [hRead]
        rcases ih with ⟨hTexts, hReads⟩ | ⟨hTexts, failure, hReads, hKind⟩
        · rw [hReads]
          exact .inl ⟨⟨hText, hTexts⟩, rfl⟩
        · rw [hReads]
          exact .inr ⟨fun h => hTexts h.2, failure, rfl, hKind⟩
      · rw [hRead]
        exact .inr ⟨fun h => hText h.1, _, rfl, rfl⟩

namespace DomainParameters

variable (n : Nat) (p : DomainParameters)

/-- The texts of a quantity. -/
def texts : Quantity → List String
  | .prime => [p.prime]
  | .polynomialCoefficient => p.extension.getD []
  | .a => p.a.texts
  | .b => p.b.texts
  | .generatorX => p.generator.x.texts
  | .generatorY => p.generator.y.texts
  | .order => [p.order]
  | .pointX | .pointY | .coordinate => []

/-- The numbers of a quantity. -/
def numbers (quantity : Quantity) : List (FixedNat n) :=
  (p.texts quantity).map (writtenNumber n)

def modulus : FixedNat n :=
  writtenNumber n p.prime

def degree : Nat :=
  match p.extension with
  | none => 1
  | some coeffs => coeffs.length

/-- The monic polynomial of the field, which is `x` for a prime field. -/
noncomputable def polynomial : (ZMod (p.modulus n).toNat)[X] :=
  CoordinateField.lowMonic (p.modulus n).toNat p.degree (p.numbers n .polynomialCoefficient)

/-- The remainders modulo the polynomial of the field. -/
abbrev Remainders : Type :=
  AdjoinRoot (p.polynomial n)

/-- The remainder that the coefficients of a quantity make. -/
noncomputable def remainder (quantity : Quantity) : p.Remainders n :=
  AdjoinRoot.mk (p.polynomial n)
    (CoordinateField.lowPolynomial (p.modulus n).toNat p.degree (p.numbers n quantity))

end DomainParameters

/-- The conditions on a parameter set. -/
inductive Requirement where
  | readable (quantity : Quantity)
  | supportedDegree
  | oddModulus
  | reducedCoefficients
  | constantTerm
  | noRoot
  | fieldElement (quantity : Quantity)
  | largeCharacteristic
  | nonsingular
  | basePointOnCurve
  | oddOrder

namespace Requirement

/-- The kind of failure if a requirement is not met. -/
def kind : Requirement → FailureKind
  | .readable _ => .undecodable
  | .supportedDegree | .oddModulus | .reducedCoefficients | .constantTerm | .noRoot => .invalidField
  | .fieldElement _ | .largeCharacteristic | .nonsingular | .basePointOnCurve | .oddOrder =>
    .invalidCurve

/-- The requirement as a condition on the numbers that a parameter set writes. -/
def IsMet (n : Nat) (p : DomainParameters) : Requirement → Prop
  | .readable quantity => ∀ text ∈ p.texts quantity, IsReadable n text
  | .supportedDegree => p.extension ≠ none → 2 ≤ p.degree ∧ p.degree ≤ maxExtensionDegree
  | .oddModulus => (p.modulus n).toNat % 2 = 1 ∧ 3 ≤ (p.modulus n).toNat
  | .reducedCoefficients =>
    ∀ c ∈ p.numbers n .polynomialCoefficient, c.toNat < (p.modulus n).toNat
  | .constantTerm => p.extension ≠ none → (p.numbers n .polynomialCoefficient).getD 0 0 ≠ 0
  | .noRoot => p.extension ≠ none → p.degree ≤ 3 → (p.modulus n).toNat < 2 ^ 16 →
    ∀ x, ¬(p.polynomial n).IsRoot x
  | .fieldElement quantity =>
    CoordinateField.IsCanonical (p.modulus n).toNat p.degree (p.numbers n quantity)
  | .largeCharacteristic => 3 < (p.modulus n).toNat
  | .nonsingular => 4 * p.remainder n .a ^ 3 + 27 * p.remainder n .b ^ 2 ≠ 0
  | .basePointOnCurve =>
    p.remainder n .generatorY ^ 2 =
      p.remainder n .generatorX ^ 3 + p.remainder n .a * p.remainder n .generatorX +
        p.remainder n .b
  | .oddOrder => (writtenNumber n p.order).toNat % 2 = 1 ∧ 3 ≤ (writtenNumber n p.order).toNat

/-- What the field has to satisfy. -/
def ofField : List Requirement := [
  .readable .prime, .readable .polynomialCoefficient, .supportedDegree, .oddModulus,
  .reducedCoefficients, .constantTerm, .noRoot]

/-- What the coordinates have to satisfy on their own. -/
def ofCoordinates : List Requirement := [
  .readable .a, .fieldElement .a, .readable .b, .fieldElement .b,
  .readable .generatorX, .fieldElement .generatorX,
  .readable .generatorY, .fieldElement .generatorY]

/-- The requirements in the order in which the constructor looks at them. -/
def inOrder : List Requirement :=
  ofField ++ ofCoordinates ++
    [.readable .order, .largeCharacteristic, .nonsingular, .basePointOnCurve, .oddOrder]

end Requirement

/-- A step that goes through requirements in their order and fails at the first that is not met. -/
inductive Requires (n : Nat) (p : DomainParameters) {α : Type} :
    Except Failure α → List Requirement → Prop where
  | done (a : α) : Requires n p (.ok a) []
  | met {step : Except Failure α} {r : Requirement} {rs : List Requirement} (h : r.IsMet n p)
      (rest : Requires n p step rs) : Requires n p step (r :: rs)
  | unmet {failure : Failure} {r : Requirement} {rs : List Requirement} (h : ¬r.IsMet n p)
      (hKind : failure.kind = r.kind) : Requires n p (.error failure) (r :: rs)

namespace Requires

variable {p : DomainParameters} {α β : Type} {step : Except Failure α} {rs rs' : List Requirement}

theorem bind (h : Requires n p step rs) {next : α → Except Failure β}
    (hNext : ∀ a, step = .ok a → Requires n p (next a) rs') :
    Requires n p (step >>= next) (rs ++ rs') := by
  induction h with
  | done a => exact hNext a rfl
  | met hMet _ ih => exact .met hMet (ih hNext)
  | unmet hUnmet hKind => exact .unmet hUnmet hKind

theorem of_ok {a : α} (h : Requires n p step rs) (hStep : step = .ok a) :
    ∀ r ∈ rs, r.IsMet n p := by
  induction h with
  | done a => simp
  | met hMet _ ih => exact List.forall_mem_cons.mpr ⟨hMet, ih hStep⟩
  | unmet _ _ => cases hStep

/-- The requirement at which a step failed. -/
theorem of_error {failure : Failure} (h : Requires n p step rs) (hStep : step = .error failure) :
    ∃ before r after, rs = before ++ r :: after ∧ (∀ s ∈ before, s.IsMet n p) ∧ ¬r.IsMet n p ∧
      failure.kind = r.kind := by
  induction h with
  | done a => cases hStep
  | @met step r rs hMet _ ih =>
      obtain ⟨before, unmet, after, rfl, hBefore, hUnmet⟩ := ih hStep
      exact ⟨r :: before, unmet, after, rfl, List.forall_mem_cons.mpr ⟨hMet, hBefore⟩, hUnmet⟩
  | @unmet failure r rs hUnmet hKind =>
      cases hStep
      exact ⟨[], r, rs, rfl, by simp, hUnmet, hKind⟩

end Requires

section Field

open CoordinateField

variable {p : DomainParameters} {f : CoordinateField n} {quantity : Quantity}

theorem requires_readNumbers {texts : List String} (hTexts : p.texts quantity = texts) :
    Requires n p (readNumbers n quantity texts) [.readable quantity] := by
  subst hTexts
  rcases readNumbers_cases n quantity (p.texts quantity) with
    ⟨hMet, hRead⟩ | ⟨hUnmet, _, hRead, hKind⟩
  · rw [hRead]
    exact .met hMet (.done _)
  · rw [hRead]
    exact .unmet hUnmet hKind

theorem requires_readNumber (hTexts : p.texts quantity = [text]) :
    Requires n p (readNumber n quantity text) [.readable quantity] := by
  have hMet : Requirement.IsMet n p (.readable quantity) ↔ IsReadable n text := by
    rw [Requirement.IsMet, hTexts, List.forall_mem_singleton]
  rcases readNumber_cases n quantity text with ⟨hReadable, hRead⟩ | ⟨hUnreadable, hRead⟩
  · rw [hRead]
    exact .met (hMet.mpr hReadable) (.done _)
  · rw [hRead]
    exact .unmet (mt hMet.mp hUnreadable) rfl

theorem eq_writtenNumber_of_readNumber_eq {a : FixedNat n}
    (h : readNumber n quantity text = .ok a) : a = writtenNumber n text := by
  rcases readNumber_cases n quantity text with ⟨-, hRead⟩ | ⟨-, hRead⟩
  · exact Except.ok.inj (h.symm.trans hRead)
  · cases h.symm.trans hRead

theorem eq_map_writtenNumber_of_readNumbers_eq {texts : List String} {xs : List (FixedNat n)}
    (h : readNumbers n quantity texts = .ok xs) : xs = texts.map (writtenNumber n) := by
  rcases readNumbers_cases n quantity texts with ⟨-, hRead⟩ | ⟨-, _, hRead, -⟩
  · exact Except.ok.inj (h.symm.trans hRead)
  · cases h.symm.trans hRead

/-- A prime field has no polynomial, so that only the modulus matters. -/
theorem requires_ofPrime (hExtension : p.extension = none) :
    Requires n p (ofPrime (p.modulus n))
      [.supportedDegree, .oddModulus, .reducedCoefficients, .constantTerm, .noRoot] := by
  have hCoeffs : p.numbers n .polynomialCoefficient = [] := by
    simp [DomainParameters.numbers, DomainParameters.texts, hExtension]
  refine .met (fun h => absurd hExtension h) ?_
  rw [ofPrime]
  rcases build_cases (p.modulus n) (Nat.le_refl 1) [] with
    ⟨hOdd, hBuild⟩ | ⟨hOdd, ⟨hCoefficients, -⟩ | ⟨-, f, hBuild⟩⟩
  · rw [hBuild]
    exact .unmet hOdd rfl
  · exact absurd (by simp) hCoefficients
  · rw [hBuild]
    refine .met hOdd (.met ?_ (.met ?_ (.met ?_ (.done f))))
    · rw [Requirement.IsMet, hCoeffs]
      simp
    · exact fun h => absurd hExtension h
    · exact fun h => absurd hExtension h

theorem length_polynomialCoefficients {texts : List String}
    (hExtension : p.extension = some texts) :
    (p.numbers n .polynomialCoefficient).length = p.degree := by
  simp [DomainParameters.numbers, DomainParameters.texts, DomainParameters.degree, hExtension]

theorem requires_ofPolynomial {texts : List String} (hExtension : p.extension = some texts) :
    Requires n p (ofPolynomial (p.modulus n) (p.numbers n .polynomialCoefficient))
      [.supportedDegree, .oddModulus, .reducedCoefficients, .constantTerm, .noRoot] := by
  have hSome : p.extension ≠ none := by simp [hExtension]
  have hLength := length_polynomialCoefficients (n := n) hExtension
  rw [ofPolynomial, hLength]
  by_cases hDegree : 2 ≤ p.degree ∧ p.degree ≤ maxExtensionDegree
  · have hLower : 1 ≤ (p.numbers n .polynomialCoefficient).length := by omega
    refine .met (fun _ => hDegree) ?_
    rw [if_neg (by omega)]
    rcases build_cases (p.modulus n) (by omega : 1 ≤ p.degree) (p.numbers n .polynomialCoefficient)
      with ⟨hOdd, hBuild⟩ | ⟨hOdd, ⟨hCoefficients, hBuild⟩ | ⟨hCoefficients, f, hBuild⟩⟩
    · rw [hBuild]
      exact .unmet hOdd rfl
    · rw [hBuild]
      exact .met hOdd (.unmet hCoefficients rfl)
    · rw [hBuild]
      refine .met hOdd (.met hCoefficients ?_)
      rw [← hLength] at hBuild
      have hReducible := isReducible_of_build_eq_iff hLower (hLength ▸ hDegree.2) hCoefficients
        hBuild
      rw [hLength] at hReducible
      dsimp only
      by_cases hConstant : (p.numbers n .polynomialCoefficient).getD 0 0 = 0
      · rw [if_pos (hReducible.mpr (.inl hConstant))]
        exact .unmet (fun h => h hSome hConstant) rfl
      · refine .met (fun _ => hConstant) ?_
        by_cases hRoot : p.degree ≤ 3 ∧ (p.modulus n).toNat < 2 ^ 16 ∧
            ∃ x, (p.polynomial n).IsRoot x
        · rw [if_pos (hReducible.mpr (.inr hRoot))]
          obtain ⟨hSmallDegree, hSmall, x, hx⟩ := hRoot
          exact .unmet (fun h => h hSome hSmallDegree hSmall x hx) rfl
        · rw [if_neg fun h => (hReducible.mp h).elim hConstant hRoot]
          exact .met (fun _ hSmallDegree hSmall x hx => hRoot ⟨hSmallDegree, hSmall, x, hx⟩)
            (.done f)
  · rw [if_pos (by omega)]
    exact .unmet (fun h => hDegree (h hSome)) rfl

theorem requires_readField (n : Nat) (p : DomainParameters) :
    Requires n p (p.readField n) Requirement.ofField := by
  rw [DomainParameters.readField]
  have hTextsPrime : p.texts .prime = [p.prime] := rfl
  apply (requires_readNumber hTextsPrime).bind
  intro prime hPrime
  obtain rfl := eq_writtenNumber_of_readNumber_eq hPrime
  cases hExtension : p.extension with
  | none =>
      refine .met ?_ (requires_ofPrime hExtension)
      simp [Requirement.IsMet, DomainParameters.texts, hExtension]
  | some texts =>
      have hTexts : p.texts .polynomialCoefficient = texts := by
        simp [DomainParameters.texts, hExtension]
      apply (requires_readNumbers hTexts).bind
      intro coeffs hCoeffs
      obtain rfl := eq_map_writtenNumber_of_readNumbers_eq hCoeffs
      have hRequires := requires_ofPolynomial (n := n) hExtension
      rw [DomainParameters.numbers, hTexts] at hRequires
      exact hRequires

/-- The field that is read is built of the numbers that the parameter set writes. -/
theorem build_eq_of_readField (h : p.readField n = .ok f) :
    1 ≤ p.degree ∧ p.degree ≤ maxExtensionDegree ∧
      build (p.modulus n) p.degree (p.numbers n .polynomialCoefficient) = .ok f := by
  obtain ⟨prime, hPrime, h⟩ := exists_of_bind_eq_ok h
  obtain rfl := eq_writtenNumber_of_readNumber_eq hPrime
  cases hExtension : p.extension with
  | none =>
      have hDegree : p.degree = 1 := by simp [DomainParameters.degree, hExtension]
      rw [hExtension] at h
      rw [hDegree]
      refine ⟨Nat.le_refl 1, by decide, ?_⟩
      have hNumbers : p.numbers n .polynomialCoefficient = [] := by
        simp [DomainParameters.numbers, DomainParameters.texts, hExtension]
      rw [hNumbers]
      exact h
  | some texts =>
      rw [hExtension] at h
      obtain ⟨coeffs, hCoeffs, h⟩ := exists_of_bind_eq_ok h
      have hNumbers : p.numbers n .polynomialCoefficient = coeffs := by
        rw [eq_map_writtenNumber_of_readNumbers_eq hCoeffs]
        simp [DomainParameters.numbers, DomainParameters.texts, hExtension]
      obtain ⟨hLower, hUpper, hBuild⟩ := ofPolynomial_eq_ok h
      rw [← length_polynomialCoefficients (n := n) hExtension, hNumbers]
      exact ⟨by omega, hUpper, hBuild⟩

/-- The field of a parameter set, which computes with the remainders of its polynomial. -/
structure IsFieldOf (n : Nat) (p : DomainParameters) (f : CoordinateField n) : Prop where
  modulus_eq : f.modulus = p.modulus n
  degree_eq : f.degree = p.degree
  exists_realization : ∃ r : RingRealization f (p.Remainders n), ∀ quantity a,
    f.encode? (p.numbers n quantity) = some a → r.value a = p.remainder n quantity

theorem isFieldOf_of_readField (h : p.readField n = .ok f) : IsFieldOf n p f := by
  obtain ⟨hLower, hUpper, hBuild⟩ := build_eq_of_readField h
  obtain ⟨-, hModulus, hDegree, -⟩ := build_eq_ok hLower hUpper hBuild
  obtain ⟨r, hNumber⟩ := exists_ringRealization_of_build_eq hLower hUpper hBuild
  exact ⟨hModulus, hDegree, r, fun quantity a hEncoded =>
    (r.value_of_encode?_eq hEncoded).trans (hNumber (p.numbers n quantity))⟩

/-- The element that is read has the coefficients that the parameter set writes. -/
theorem encode?_eq_of_read_eq {c : Coordinate} (hTexts : p.texts quantity = c.texts)
    {a : FieldElement n} (h : f.read quantity c = .ok a) :
    f.encode? (p.numbers n quantity) = some a := by
  obtain ⟨coeffs, hCoeffs, hEncoded⟩ := read_eq_ok h
  rw [DomainParameters.numbers, hTexts, ← eq_map_writtenNumber_of_readNumbers_eq hCoeffs]
  exact hEncoded

theorem requires_read (hField : IsFieldOf n p f) {c : Coordinate}
    (hTexts : p.texts quantity = c.texts) :
    Requires n p (f.read quantity c) [.readable quantity, .fieldElement quantity] := by
  rw [CoordinateField.read]
  apply (requires_readNumbers hTexts).bind
  intro coeffs hCoeffs
  have hNumbers : p.numbers n quantity = coeffs := by
    rw [eq_map_writtenNumber_of_readNumbers_eq hCoeffs, DomainParameters.numbers, hTexts]
  have hMet : Requirement.IsMet n p (.fieldElement quantity) ↔
      IsCanonical f.modulus.toNat f.degree coeffs := by
    rw [Requirement.IsMet, hField.modulus_eq, hField.degree_eq, hNumbers]
  cases hEncoded : f.encode? coeffs with
  | some a => exact .met (hMet.mpr (.of_encode?_eq hEncoded)) (.done a)
  | none =>
      refine .unmet (fun h => ?_) rfl
      rw [(hMet.mp h).encode?_eq] at hEncoded
      cases hEncoded

end Field

section Curve

open CoordinateField

variable {p : DomainParameters} {f : CoordinateField n} {a b x y : FieldElement n}

theorem requires_ofCoefficients (hField : IsFieldOf n p f)
    (ha : f.encode? (p.numbers n .a) = some a) (hb : f.encode? (p.numbers n .b) = some b) :
    Requires n p (Curve.ofCoefficients f a b) [.largeCharacteristic, .nonsingular] := by
  obtain ⟨r, hValue⟩ := hField.exists_realization
  have hLarge : FixedNat.ofWord 3 < f.modulus ↔ 3 < (p.modulus n).toNat := by
    rw [FixedNat.lt_iff, FixedNat.toNat_ofWord f.mont.limbs_pos, hField.modulus_eq]
    rfl
  have hSingular := Curve.isZero_discriminant_iff r (isElement_of_encode?_eq ha)
    (isElement_of_encode?_eq hb)
  rw [hValue _ _ ha, hValue _ _ hb] at hSingular
  rw [Curve.ofCoefficients]
  by_cases hMet : 3 < (p.modulus n).toNat
  · rw [if_neg (not_not_intro (hLarge.mpr hMet))]
    refine .met hMet ?_
    split <;> rename_i hZero
    · exact .unmet (not_not_intro (hSingular.mp hZero)) rfl
    · exact .met (mt hSingular.mpr hZero) (.done _)
  · rw [if_pos (mt hLarge.mp hMet)]
    exact .unmet hMet rfl

theorem requires_ofBasePoint {curve : Curve n} (hField : IsFieldOf n p curve.field)
    (ha : curve.field.encode? (p.numbers n .a) = some curve.a)
    (hb : curve.field.encode? (p.numbers n .b) = some curve.b)
    (hx : curve.field.encode? (p.numbers n .generatorX) = some x)
    (hy : curve.field.encode? (p.numbers n .generatorY) = some y) (name : String) :
    Requires n p (CurveGroup.ofBasePoint name curve x y (writtenNumber n p.order))
      [.basePointOnCurve, .oddOrder] := by
  obtain ⟨r, hValue⟩ := hField.exists_realization
  have hContains := Curve.contains_ofAffine_iff r (isElement_of_encode?_eq ha)
    (isElement_of_encode?_eq hb) (isElement_of_encode?_eq hx) (isElement_of_encode?_eq hy)
  rw [hValue _ _ ha, hValue _ _ hb, hValue _ _ hx, hValue _ _ hy] at hContains
  have hOdd := Montgomery.isSome_ofModulus?_iff (writtenNumber n p.order)
  rw [CurveGroup.ofBasePoint, GroupOrder.ofNumber]
  split <;> rename_i hOn
  · refine .met (hContains.mp hOn) ?_
    cases hMont : Montgomery.ofModulus? (writtenNumber n p.order) with
    | some mont =>
        rw [hMont] at hOdd
        exact .met (hOdd.mp rfl) (.done _)
    | none =>
        rw [hMont] at hOdd
        exact .unmet (mt hOdd.mpr Bool.false_ne_true) rfl
  · exact .unmet (mt hContains.mpr hOn) rfl

end Curve

namespace CurveGroup

variable {p : DomainParameters} {group : CurveGroup n}

/-- The constructor goes through the requirements in their order. -/
theorem requires_ofParameters (n : Nat) (p : DomainParameters) :
    Requires n p (ofParameters n p) Requirement.inOrder := by
  rw [ofParameters]
  apply (requires_readField n p).bind
  intro f hf
  have hField := isFieldOf_of_readField hf
  have hTextsA : p.texts .a = p.a.texts := rfl
  have hTextsB : p.texts .b = p.b.texts := rfl
  have hTextsX : p.texts .generatorX = p.generator.x.texts := rfl
  have hTextsY : p.texts .generatorY = p.generator.y.texts := rfl
  have hTextsOrder : p.texts .order = [p.order] := rfl
  apply (requires_read hField hTextsA).bind
  intro a ha
  apply (requires_read hField hTextsB).bind
  intro b hb
  apply (requires_read hField hTextsX).bind
  intro x hx
  apply (requires_read hField hTextsY).bind
  intro y hy
  apply (requires_readNumber hTextsOrder).bind
  intro order hOrder
  obtain rfl := eq_writtenNumber_of_readNumber_eq hOrder
  have ha := encode?_eq_of_read_eq hTextsA ha
  have hb := encode?_eq_of_read_eq hTextsB hb
  apply (requires_ofCoefficients hField ha hb).bind
  intro curve hCurve
  obtain rfl := Curve.ofCoefficients_eq_ok hCurve
  exact requires_ofBasePoint hField ha hb (encode?_eq_of_read_eq hTextsX hx)
    (encode?_eq_of_read_eq hTextsY hy) p.name

/-- The group has the parts that the parameter set writes. -/
structure HasParts (group : CurveGroup n) (p : DomainParameters) : Prop where
  name_eq : group.name = p.name
  modulus_eq : group.field.modulus = writtenNumber n p.prime
  degree_eq : group.field.degree = p.degree
  decode_a : group.field.decode group.curve.a = p.numbers n .a
  decode_b : group.field.decode group.curve.b = p.numbers n .b
  generator_eq : group.toAffine? group.generator =
    some (p.numbers n .generatorX, p.numbers n .generatorY)
  order_eq : group.order.modulus = writtenNumber n p.order

theorem hasParts_of_ofParameters (h : ofParameters n p = .ok group) : group.HasParts p := by
  obtain ⟨x, y, order, hField, hA, hB, hX, hY, hOrder, -, hGroup⟩ := ofParameters_eq_ok h
  obtain ⟨hName, -, hGenerator, hModulus, -⟩ := ofBasePoint_eq_ok hGroup
  have hIsField := isFieldOf_of_readField hField
  obtain ⟨r, -⟩ := hIsField.exists_realization
  have hTextsX : p.texts .generatorX = p.generator.x.texts := rfl
  have hTextsY : p.texts .generatorY = p.generator.y.texts := rfl
  have hx := encode?_eq_of_read_eq hTextsX hX
  have hy := encode?_eq_of_read_eq hTextsY hY
  refine ⟨hName, hIsField.modulus_eq, hIsField.degree_eq, ?_, ?_, ?_, ?_⟩
  · exact CoordinateField.decode_of_encode?_eq r.isBuilt (encode?_eq_of_read_eq rfl hA)
  · exact CoordinateField.decode_of_encode?_eq r.isBuilt (encode?_eq_of_read_eq rfl hB)
  · have hAffine := Curve.affine?_ofAffine r (CoordinateField.isElement_of_encode?_eq hx)
      (CoordinateField.isElement_of_encode?_eq hy)
    rw [toAffine?, hGenerator, hAffine, Option.map_some]
    dsimp only
    rw [field, CoordinateField.decode_of_encode?_eq r.isBuilt hx,
      CoordinateField.decode_of_encode?_eq r.isBuilt hy]
  · rw [hModulus, eq_writtenNumber_of_readNumber_eq hOrder]

/-- A group is made exactly of a parameter set that meets all requirements. It has the parts that
are written; otherwise the failure is of the kind of the first requirement that is not met. -/
theorem ofParameters_accepts (n : Nat) (p : DomainParameters) :
    ((∃ group, ofParameters n p = .ok group) ↔ ∀ r ∈ Requirement.inOrder, r.IsMet n p) ∧
    (∀ group, ofParameters n p = .ok group → group.HasParts p) ∧
    ∀ failure, ofParameters n p = .error failure →
      ∃ before r after, Requirement.inOrder = before ++ r :: after ∧
        (∀ s ∈ before, s.IsMet n p) ∧ ¬r.IsMet n p ∧ failure.kind = r.kind := by
  have hRequires := requires_ofParameters n p
  refine ⟨⟨?_, ?_⟩, fun _ h => hasParts_of_ofParameters h, fun _ h => hRequires.of_error h⟩
  · rintro ⟨group, h⟩
    exact hRequires.of_ok h
  · intro hMet
    cases h : ofParameters n p with
    | ok group => exact ⟨group, rfl⟩
    | error failure =>
        obtain ⟨before, r, after, hOrder, -, hUnmet, -⟩ := hRequires.of_error h
        exact absurd (hMet r (by simp [hOrder])) hUnmet

end CurveGroup

end NybergRueppel
