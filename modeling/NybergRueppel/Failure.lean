import NybergRueppel.Text.Quoted

/-!
Why a call can fail. A `Failure` is a cause with what is known about it; its kind and its sentence
follow from the cause. A `Fault` is a use that no caller may make, such as a division by zero.
-/
namespace NybergRueppel

/-- The kinds of failure that a caller can tell apart. -/
inductive FailureKind where
  | missingObject
  | wrongObject
  | unsupportedMode
  | messageOutOfRange
  | invalidPrivateKey
  | bufferTooSmall
  | keyLengthMismatch
  | negativeComponent
  | degenerateSignature
  | invalidField
  | invalidCurve
  | invalidPoint
  | poolExhausted
  | undecodable
  deriving DecidableEq

/-- The sentence for a kind of failure; three of the kinds go into detail. -/
def FailureKind.sentence (kind : FailureKind) (detail : String) : String :=
  match kind with
  | .missingObject => "Required object is missing"
  | .wrongObject => "Object has the wrong type tag"
  | .unsupportedMode => "Extension-field curves are not supported"
  | .messageOutOfRange => "Message representative out of range"
  | .invalidPrivateKey => "Invalid private key"
  | .bufferTooSmall => "Buffer too small"
  | .keyLengthMismatch => "Public key length does not match the curve"
  | .negativeComponent => "Signature component is negative"
  | .degenerateSignature => "Degenerate signature (c == 0)"
  | .invalidField => "Invalid field: " ++ detail
  | .invalidCurve => "Invalid curve: " ++ detail
  | .invalidPoint => "Point is not on the curve"
  | .poolExhausted => "Scratch pool exhausted"
  | .undecodable => "Decoding error: " ++ detail

/-- What is wrong with the description of a field. -/
inductive FieldDefect where
  | modulusNotOddPrime
  | coefficientNotReduced
  | modulusTooSmall
  | reduciblePolynomial
  | unsupportedDegree (degree : Nat)
  deriving DecidableEq

/-- The parts of a parameter set that are read as numbers. -/
inductive Quantity where
  | prime
  | polynomialCoefficient
  | a
  | b
  | generatorX
  | generatorY
  | order
  | pointX
  | pointY
  | coordinate
  deriving DecidableEq

/-- How messages call a quantity. -/
def Quantity.label : Quantity → String
  | .prime => "prime"
  | .polynomialCoefficient => "polynomial coefficient"
  | .a => "a"
  | .b => "b"
  | .generatorX => "generator x"
  | .generatorY => "generator y"
  | .order => "order"
  | .pointX => "point x"
  | .pointY => "point y"
  | .coordinate => "coordinate"

/-- What is wrong with the description of a curve. -/
inductive CurveDefect where
  | smallCharacteristic
  | singular
  | basePointOffCurve
  | unsuitableOrder
  | notFieldElement (quantity : Quantity)
  deriving DecidableEq

/-- Why a text cannot be decoded. -/
inductive DecodingDefect where
  | emptyNumber (text : String)
  | invalidDigit (c : Char)
  | badNumber (quantity : Quantity) (text : String)
  | roomTooLarge (room limit : Nat)
  | unknownHash (name : String)
  | unreadableFile (path reason : String)
  | malformedJson
  deriving DecidableEq

/-- The causes of failure. -/
inductive Failure where
  /-- A required object of a request is absent. -/
  | missingObject
  /-- An object of a request carries the wrong type tag. -/
  | wrongObject
  /-- The curve is defined over an extension field. -/
  | unsupportedMode
  /-- The message representative is not between zero and the order. -/
  | messageOutOfRange
  /-- A private key is not between zero and the order. -/
  | invalidPrivateKey
  /-- An output buffer or the scratch tables are too small. -/
  | bufferTooSmall
  /-- The element length of the public key differs from that of the curve. -/
  | keyLengthMismatch
  /-- A signature component is negative. -/
  | negativeComponent
  /-- The nonce gives no usable signature. -/
  | degenerateSignature
  | invalidField (defect : FieldDefect)
  | invalidCurve (defect : CurveDefect)
  /-- The coordinates do not describe a point of the curve. -/
  | invalidPoint
  /-- The pool has no free slots left. -/
  | poolExhausted
  | undecodable (defect : DecodingDefect)
  deriving DecidableEq

/-- The largest degree of an extension field. -/
def maxExtensionDegree : Nat := 4

def FieldDefect.message : FieldDefect → String
  | .modulusNotOddPrime => "modulus must be an odd prime"
  | .coefficientNotReduced => "polynomial coefficient not reduced"
  | .modulusTooSmall => "modulus too small"
  | .reduciblePolynomial => "polynomial is reducible"
  | .unsupportedDegree degree =>
    "extension degree " ++ toString degree ++ " not in 2..=" ++ toString maxExtensionDegree

def CurveDefect.message : CurveDefect → String
  | .smallCharacteristic => "short Weierstrass form requires characteristic > 3"
  | .singular => "curve is singular (discriminant is zero)"
  | .basePointOffCurve => "base point is not on the curve"
  | .unsuitableOrder => "order must be odd and at least 3"
  | .notFieldElement quantity => quantity.label ++ " is not a field element"

def DecodingDefect.message : DecodingDefect → String
  | .emptyNumber text => "empty hex number " ++ Text.quoted text
  | .invalidDigit c => "invalid hex digit " ++ Text.quotedChar c
  | .badNumber quantity text => "bad " ++ quantity.label ++ ": " ++ Text.quoted text
  | .roomTooLarge room limit =>
    "room " ++ toString room ++ " exceeds " ++ toString limit ++ " words"
  | .unknownHash name => "unknown hash " ++ Text.quoted name
  | .unreadableFile path reason => path ++ ": " ++ reason
  | .malformedJson => "malformed JSON"

/-- The kind of a failure. -/
def Failure.kind : Failure → FailureKind
  | .missingObject => .missingObject
  | .wrongObject => .wrongObject
  | .unsupportedMode => .unsupportedMode
  | .messageOutOfRange => .messageOutOfRange
  | .invalidPrivateKey => .invalidPrivateKey
  | .bufferTooSmall => .bufferTooSmall
  | .keyLengthMismatch => .keyLengthMismatch
  | .negativeComponent => .negativeComponent
  | .degenerateSignature => .degenerateSignature
  | .invalidField _ => .invalidField
  | .invalidCurve _ => .invalidCurve
  | .invalidPoint => .invalidPoint
  | .poolExhausted => .poolExhausted
  | .undecodable _ => .undecodable

/-- The detail that the sentence of a failure goes into. -/
def Failure.detail : Failure → String
  | .invalidField defect => defect.message
  | .invalidCurve defect => defect.message
  | .undecodable defect => defect.message
  | _ => ""

/-- The sentence that reports a failure. -/
def Failure.message (failure : Failure) : String :=
  failure.kind.sentence failure.detail

/-- Uses that no caller may make. -/
inductive Fault where
  | divisionByZero
  /-- An element slot outside the range that was handed out. -/
  | elementSlot (index count : Nat)
  /-- A point slot outside the range that was handed out. -/
  | pointSlot (index count : Nat)
  deriving DecidableEq

/-- The sentence that reports a fault. -/
def Fault.message : Fault → String
  | .divisionByZero => "Division by zero"
  | .elementSlot index count =>
    "element slot " ++ toString index ++ " out of " ++ toString count
  | .pointSlot index count => "point slot " ++ toString index ++ " out of " ++ toString count

/-- How a call can end without a result. -/
inductive Stop where
  | failure (failure : Failure)
  | fault (fault : Fault)
  deriving DecidableEq

end NybergRueppel
