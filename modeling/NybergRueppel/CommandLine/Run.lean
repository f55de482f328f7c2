import NybergRueppel.CommandLine.Answer
import NybergRueppel.Parameters.Json

/-!
Carrying out commands. What a command needs from outside, the text of a parameter file and the time
that a computation takes, is given as a structure, so that a command can be carried out without any
outside at all.
-/
namespace NybergRueppel.CommandLine

/-- What commands need from outside. -/
structure Surroundings (m : Type → Type) where
  /-- The text of the file at a path, or why it cannot be read. -/
  contents : String → m (Except String String)
  /-- Computes a value and tells how long that took. -/
  timed : {α : Type} → (Unit → α) → m (α × String)

section

variable {m : Type → Type} [Monad m]

/-- The parameters of a source. -/
def CurveSource.parameters (outside : Surroundings m) :
    CurveSource → ExceptT CommandFailure m DomainParameters
  | .standard => return .p256
  | .named name =>
    match DomainParameters.builtin? name with
    | some p => return p
    | none => throw (.unknownCurve name)
  | .file path => do
    match ← outside.contents path with
    | .ok text => ofExcept (DomainParameters.ofText text)
    | .error reason =>
      ofExcept (.error (.undecodable (.unreadableFile path reason)))

/-- The group of a source. -/
def CurveSource.load (outside : Surroundings m) (source : CurveSource) :
    ExceptT CommandFailure m (CurveGroup limbCount) := do
  ofExcept (CurveGroup.ofParameters limbCount (← source.parameters outside))

/-- The private key of the demonstration. -/
def demoKey : String :=
  "C477F9F65C22CCE20657FAA5B2D1D8122336F851A508A1ED04E479C34985BF96"

/-- The nonce of the demonstration. -/
def demoNonce : String :=
  "7A1A7E52797FC8CAAA435D2A4DACE39158504BF204FBE19F14DBB427FAEE50AE"

/-- The lines above the demonstration. -/
def demoHeading : List String :=
  let rule := String.ofList (List.replicate 80 '=')
  [rule, "NR signatures over P-256 and secp256k1", rule, ""]

/-- Signs a short text on one curve, checks the signature, and tells how long both took. -/
def demoCurve (outside : Surroundings m) (p : DomainParameters) :
    ExceptT CommandFailure m (List String) := do
  let group ← ofExcept (CurveGroup.ofParameters limbCount p)
  let key ← ofExcept (BufferedInt.ofHex demoKey)
  let nonce ← ofExcept (BufferedInt.ofHex demoNonce)
  let point ← call verifyTables (group.publicKey key)
  let message : Message := .bytes "abc".toUTF8.toList
  let (signed, signTime) ← outside.timed fun _ =>
    signIn group message .sha256 key nonce (freshWorkspace verifyTables)
  let signature ← signed
  let (checked, verifyTime) ← outside.timed fun _ =>
    check group message .sha256 point signature
  let verdict ← checked
  return ["[" ++ group.name ++ "]", "  message: \"abc\" (SHA-256)"]
    ++ (signatureLines signature).map ("  " ++ ·)
    ++ ["  sign:   " ++ signTime, "  verify: " ++ verdict.text ++ " (" ++ verifyTime ++ ")", ""]

/-- Carries out a command. -/
def Command.run (outside : Surroundings m) : Command → ExceptT CommandFailure m Answer
  | .sign curve key nonce message algorithm => do
    answerSign (← curve.load outside) key nonce message algorithm
  | .verify curve x y c d message algorithm => do
    answerVerify (← curve.load outside) x y c d message algorithm
  | .publicKey curve key => do
    answerPublicKey (← curve.load outside) key
  | .demo => do
    let first ← demoCurve outside .p256
    let second ← demoCurve outside .secp256k1
    return { lines := demoHeading ++ first ++ second }

end

/-- What a run of the program leaves behind. -/
structure Report where
  exitCode : UInt32
  output : String
  errors : String

/-- Lines as a text; every line is ended. -/
def linesText (lines : List String) : String :=
  String.join (lines.map (· ++ "\n"))

/-- A signature that is not valid has an exit code of its own, and so has a failure. -/
def Report.ofOutcome : Except CommandFailure Answer → Report
  | .ok answer =>
    { exitCode := if answer.holds then 0 else 3, output := linesText answer.lines, errors := "" }
  | .error failure =>
    { exitCode := 1, output := "", errors := "error: " ++ failure.message ++ "\n" }

/-- The help text. -/
def usage : String :=
  linesText [
    "Usage: nyberg-rueppel <command> [options]",
    "",
    "Commands:",
    "  sign    --key HEX --nonce HEX <message>",
    "  verify  --pub-x HEX,... --pub-y HEX,... --c HEX --d HEX <message>",
    "  pubkey  --key HEX",
    "  demo",
    "",
    "A message is one of --message TEXT, --message-hex BYTES and --msg-hex HEX; --hash NAME",
    "chooses the digest function for the first two. Every command but demo takes --curve NAME or",
    "--params FILE; the curve is P-256 otherwise."]

/-- Runs the program on its arguments. -/
def run {m : Type → Type} [Monad m] (outside : Surroundings m) (arguments : List String) :
    m Report := do
  match Command.read arguments with
  | .accepted command => return Report.ofOutcome (← (command.run outside).run)
  | .help => return { exitCode := 0, output := usage, errors := "" }
  | .refused => return { exitCode := 2, output := "", errors := usage }

end NybergRueppel.CommandLine
