import NybergRueppel.BufferedInt.Basic
import NybergRueppel.Field.Element
import NybergRueppel.Montgomery

/-!
The coordinate field of a curve: a prime field or an extension of it by the remainders modulo a
monic polynomial. A prime field counts as the extension by the polynomial `x`.
-/
namespace NybergRueppel

/-- A prime field or an extension of one. -/
structure CoordinateField (n : Nat) where
  mont : Montgomery n
  degree : Nat
  /-- The polynomial without its leading term, which is the power `degree` of the variable. -/
  polynomial : FieldElement n
  /-- The number of field elements less two. -/
  inverseExponent : List UInt64

namespace CoordinateField

variable {n : Nat}

def modulus (f : CoordinateField n) : FixedNat n :=
  f.mont.modulus

def isExtension (f : CoordinateField n) : Bool :=
  1 < f.degree

/-- The significant words of the prime. -/
def primeWords (f : CoordinateField n) : Nat :=
  f.modulus.wordLength

/-- The words that one element takes. -/
def elementLength (f : CoordinateField n) : Nat :=
  f.degree * f.primeWords

def one (f : CoordinateField n) : FieldElement n :=
  .ofBase f.mont.one

def add (f : CoordinateField n) (a b : FieldElement n) : FieldElement n :=
  .ofCoeffs f.degree fun i => FixedNat.addMod f.modulus (a.coeff i) (b.coeff i)

def sub (f : CoordinateField n) (a b : FieldElement n) : FieldElement n :=
  .ofCoeffs f.degree fun i => FixedNat.subMod f.modulus (a.coeff i) (b.coeff i)

def neg (f : CoordinateField n) (a : FieldElement n) : FieldElement n :=
  f.sub 0 a

def double (f : CoordinateField n) (a : FieldElement n) : FieldElement n :=
  f.add a a

/-- Adds `c` to the coefficient at `i` of a polynomial. -/
def addAt (f : CoordinateField n) (cs : List (FixedNat n)) (i : Nat) (c : FixedNat n) :
    List (FixedNat n) :=
  cs.set i (FixedNat.addMod f.modulus (cs.getD i 0) c)

/-- Takes `c` away from the coefficient at `i` of a polynomial. -/
def subAt (f : CoordinateField n) (cs : List (FixedNat n)) (i : Nat) (c : FixedNat n) :
    List (FixedNat n) :=
  cs.set i (FixedNat.subMod f.modulus (cs.getD i 0) c)

/-- Adds the products of the coefficient of `a` at `i` and the coefficients of `b`. -/
def addRow (f : CoordinateField n) (a b : FieldElement n) (cs : List (FixedNat n)) (i : Nat) :
    List (FixedNat n) :=
  (List.range f.degree).foldl
    (fun cs j => f.addAt cs (i + j) (f.mont.mul (a.coeff i) (b.coeff j))) cs

/-- Clears the coefficient at `i`, which goes around through the polynomial of the field into the
coefficients right below it. -/
def foldTop (f : CoordinateField n) (cs : List (FixedNat n)) (i : Nat) : List (FixedNat n) :=
  let lead := cs.getD i 0
  if lead.isZero then cs
  else
    (List.range f.degree).foldl
      (fun cs j => f.subAt cs (i - f.degree + j) (f.mont.mul lead (f.polynomial.coeff j)))
      (cs.set i 0)

/-- The product of two elements as polynomials. -/
def product (f : CoordinateField n) (a b : FieldElement n) : List (FixedNat n) :=
  (List.range f.degree).foldl (f.addRow a b) (List.replicate (2 * maxExtensionDegree - 1) 0)

/-- The remainder of a product. Its coefficients from the degree of the field on are cleared one by
one, the highest first; each step may write to those that are still to be cleared. -/
def foldProduct (f : CoordinateField n) (cs : List (FixedNat n)) : List (FixedNat n) :=
  (List.range (f.degree - 1)).foldr (fun i cs => f.foldTop cs (f.degree + i)) cs

def mul (f : CoordinateField n) (a b : FieldElement n) : FieldElement n :=
  if f.degree = 1 then .ofBase (f.mont.mul (a.coeff 0) (b.coeff 0))
  else .ofCoeffs f.degree fun i => (f.foldProduct (f.product a b)).getD i 0

def sqr (f : CoordinateField n) (a : FieldElement n) : FieldElement n :=
  f.mul a a

/-- A power. The exponent is a list of limbs of any length. -/
def pow (f : CoordinateField n) (a : FieldElement n) (exponent : List UInt64) : FieldElement n :=
  powBits f.mul (Limbs.bits exponent) f.one a

/-- The inverse, as the power by the number of elements less two; zero stays zero. -/
def inverse (f : CoordinateField n) (a : FieldElement n) : FieldElement n :=
  f.pow a f.inverseExponent

/-- The element with the given canonical coefficients, which have to be as many as the degree and
below the prime. -/
def encode? (f : CoordinateField n) (coeffs : List (FixedNat n)) : Option (FieldElement n) :=
  if coeffs.length = f.degree ∧ ∀ c ∈ coeffs, c < f.modulus then
    some (.ofCoeffs f.degree fun i => f.mont.encode (coeffs.getD i 0))
  else none

/-- A word as an element of the base field. -/
def ofWord (f : CoordinateField n) (w : UInt64) : FieldElement n :=
  .ofBase (f.mont.encode (FixedNat.ofWord w))

/-- The canonical coefficients, as many as the degree. -/
def decode (f : CoordinateField n) (a : FieldElement n) : List (FixedNat n) :=
  (List.range f.degree).map fun i => f.mont.decode (a.coeff i)

/-- The canonical constant coefficient, which is the whole value in a prime field. -/
def decodeBase (f : CoordinateField n) (a : FieldElement n) : FixedNat n :=
  f.mont.decode (a.coeff 0)

/-- The value of the monic polynomial at a residue in Montgomery form. -/
def polynomialAt (f : CoordinateField n) (x : FixedNat n) : FixedNat n :=
  let step (i : Nat) (value : FixedNat n) : FixedNat n :=
    FixedNat.addMod f.modulus (f.polynomial.coeff i) (f.mont.mul value x)
  (List.range f.degree).foldr step f.mont.one

/-- Primes below this bound have the roots of their polynomials searched for one by one. -/
def rootSearchBound : UInt64 := 0x10000

/-- Finds some reducible polynomials: those without a constant term, and those of degree two or
three with a root modulo a small prime. -/
def isReducible (f : CoordinateField n) : Bool :=
  let p := f.modulus
  let low := p.limbs.headD 0
  if (f.polynomial.coeff 0).isZero then true
  else if 3 < f.degree || 64 < p.bitLength || rootSearchBound ≤ low then false
  else (List.range low.toNat).any fun v =>
    (f.polynomialAt (f.mont.encode (FixedNat.ofWord v.toUInt64))).isZero

/-- The power of the prime by the degree. -/
def cardinality (prime : FixedNat n) (degree : Nat) : BufferedInt :=
  (List.range (degree - 1)).foldl (fun power _ => power.mul (.ofFixed prime)) (.ofFixed prime)

/-- The field of the remainders modulo the monic polynomial with the given low coefficients. -/
def build (prime : FixedNat n) (degree : Nat) (coeffs : List (FixedNat n)) :
    Except Failure (CoordinateField n) :=
  match Montgomery.ofModulus? prime with
  | none => .error (.invalidField .modulusNotOddPrime)
  | some mont =>
    if ¬ ∀ c ∈ coeffs, c < prime then .error (.invalidField .coefficientNotReduced)
    else match (cardinality prime degree).subWord? 2 with
      | none => .error (.invalidField .modulusTooSmall)
      | some exponent => .ok {
          mont := mont
          degree := degree
          polynomial := .ofCoeffs degree fun i => mont.encode (coeffs.getD i 0)
          inverseExponent := exponent.limbs }

/-- The field of the residues modulo a prime. -/
def ofPrime (prime : FixedNat n) : Except Failure (CoordinateField n) :=
  build prime 1 []

/-- The extension of a prime field by a monic polynomial, given by its low coefficients. -/
def ofPolynomial (prime : FixedNat n) (coeffs : List (FixedNat n)) :
    Except Failure (CoordinateField n) :=
  let degree := coeffs.length
  if degree < 2 ∨ maxExtensionDegree < degree then
    .error (.invalidField (.unsupportedDegree degree))
  else match build prime degree coeffs with
    | .error failure => .error failure
    | .ok f => if f.isReducible then .error (.invalidField .reduciblePolynomial) else .ok f

end CoordinateField

end NybergRueppel
