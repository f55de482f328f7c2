import NybergRueppel.CommandLine.Command
import NybergRueppel.Group.OfParameters
import NybergRueppel.Signature.Sign
import NybergRueppel.Signature.Verify

/-!
What commands answer once the curve is loaded. The message is looked at last, and every call works
in a workspace of its own.
-/
namespace NybergRueppel.CommandLine

/-- Why a command cannot be carried out. -/
inductive CommandFailure where
  | stopped (stop : Stop)
  | unknownCurve (name : String)
  | badMessageBytes (defect : Hexadecimal.BytesDefect)
  | publicKeyAtInfinity
  deriving DecidableEq

/-- The sentence for a text that is no sequence of pairs of digits. -/
def bytesDefectMessage : Hexadecimal.BytesDefect → String
  | .oddLength => "Odd number of digits"
  | .invalidCharacter c position =>
    "Invalid character " ++ Text.quotedChar c ++ " at position " ++ toString position

/-- The sentence for the end of a call. A degenerate signature asks for another nonce. -/
def stopMessage : Stop → String
  | .failure .degenerateSignature => "degenerate signature, pick another nonce"
  | .failure failure => failure.message
  | .fault fault => fault.message

/-- The sentence that reports why a command cannot be carried out. -/
def CommandFailure.message : CommandFailure → String
  | .stopped stop => stopMessage stop
  | .unknownCurve name => "unknown curve " ++ Text.quoted name
  | .badMessageBytes defect => "--message-hex: " ++ bytesDefectMessage defect
  | .publicKeyAtInfinity => "public key is the point at infinity"

/-- The lines that a command prints, and whether what it was asked to check holds. -/
structure Answer where
  lines : List String
  holds : Bool := true

/-- Turns a failure of a pure step into the failure of a command. -/
def ofExcept {α : Type} : Except Failure α → Except CommandFailure α
  | .ok a => .ok a
  | .error failure => .error (.stopped (.failure failure))

/-- The workspace of a command: a pool that nothing uses yet and blank tables. -/
def freshWorkspace (tables : Nat) : Workspace limbCount :=
  { pool := .empty, scratch := .withCapacity tables }

/-- Makes a call in a workspace of its own. -/
def call {α : Type} (tables : Nat) (c : Call limbCount α) : Except CommandFailure α :=
  (c.run (freshWorkspace tables)).1.mapError .stopped

/-- A message that can be signed: a representative, or bytes to be hashed. -/
inductive Message where
  | representative (m : BufferedInt)
  | bytes (bytes : List UInt8)

/-- The message that a source stands for. -/
def MessageSource.resolve : MessageSource → Except CommandFailure Message
  | .text words => .ok (.bytes words.toUTF8.toList)
  | .hexBytes digits =>
    match Hexadecimal.toBytes digits with
    | .ok bytes => .ok (.bytes bytes)
    | .error defect => .error (.badMessageBytes defect)
  | .representative m => .ok (.representative m)

/-- Signs a message in a workspace. -/
def signIn (group : CurveGroup limbCount) (message : Message) (algorithm : HashAlgorithm)
    (key nonce : BufferedInt) (ws : Workspace limbCount) : Except CommandFailure Signature :=
  let blank := Signature.blank group
  let signing :=
    match message with
    | .representative m => group.sign m key nonce blank
    | .bytes bytes => group.signMessage algorithm bytes key nonce blank
  match (signing.run ws).1 with
  | (.ok (), signature) => .ok signature
  | (.error stop, _) => .error (.stopped stop)

/-- Checks a signature in a fresh workspace. -/
def check (group : CurveGroup limbCount) (message : Message) (algorithm : HashAlgorithm)
    (key : JacobianPoint limbCount) (signature : Signature) : Except CommandFailure Verdict :=
  call verifyTables <|
    match message with
    | .representative m => group.verify m key signature
    | .bytes bytes => group.verifyMessage algorithm bytes key signature

/-- The lines for a signature. -/
def signatureLines (signature : Signature) : List String :=
  ["c = " ++ signature.c.toHex, "d = " ++ signature.d.toHex]

/-- The coefficients of a coordinate with commas between them. -/
def coordinateText (coefficients : List (FixedNat limbCount)) : String :=
  ",".intercalate (coefficients.map FixedNat.toHex)

/-- Signs and prints the components. -/
def answerSign (group : CurveGroup limbCount) (key nonce : BufferedInt) (source : MessageSource)
    (algorithm : HashAlgorithm) : Except CommandFailure Answer := do
  let message ← source.resolve
  let signature ← signIn group message algorithm key nonce (freshWorkspace signTables)
  return { lines := signatureLines signature }

/-- Checks a signature and prints the verdict. -/
def answerVerify (group : CurveGroup limbCount) (x y : List (FixedNat limbCount))
    (c d : BufferedInt) (source : MessageSource) (algorithm : HashAlgorithm) :
    Except CommandFailure Answer := do
  let key ← ofExcept (group.ofAffine x y)
  let message ← source.resolve
  let verdict ← check group message algorithm key { c := c, d := d }
  return { lines := [verdict.text], holds := verdict.isValid }

/-- Prints the public key of a private key. -/
def answerPublicKey (group : CurveGroup limbCount) (key : BufferedInt) :
    Except CommandFailure Answer := do
  let point ← call signTables (group.publicKey key)
  match group.toAffine? point with
  | some (x, y) => return { lines := ["x = " ++ coordinateText x, "y = " ++ coordinateText y] }
  | none => .error .publicKeyAtInfinity

end NybergRueppel.CommandLine
