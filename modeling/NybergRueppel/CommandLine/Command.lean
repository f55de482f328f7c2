import NybergRueppel.CommandLine.Argument

/-!
The commands of the command line and the options that each of them needs.
-/
namespace NybergRueppel.CommandLine

/-- Where the parameters of the curve come from. -/
inductive CurveSource where
  /-- The curve that is used when nothing is said. -/
  | standard
  | named (name : String)
  | file (path : String)
  deriving DecidableEq

/-- What is signed. -/
inductive MessageSource where
  /-- A text, of which the UTF-8 encoding is hashed. -/
  | text (words : String)
  /-- Pairs of hexadecimal digits for the bytes that are hashed. -/
  | hexBytes (digits : String)
  /-- A representative, which is used as it is. -/
  | representative (m : BufferedInt)
  deriving DecidableEq

/-- The commands. -/
inductive Command where
  | sign (curve : CurveSource) (key nonce : BufferedInt) (message : MessageSource)
      (algorithm : HashAlgorithm)
  | verify (curve : CurveSource) (x y : List (FixedNat limbCount)) (c d : BufferedInt)
      (message : MessageSource) (algorithm : HashAlgorithm)
  | publicKey (curve : CurveSource) (key : BufferedInt)
  | demo

namespace Settings

/-- At most one of the options for the curve may be given. -/
def curveSource (s : Settings) : Reading CurveSource :=
  match s.curve, s.params with
  | none, none => .accepted .standard
  | some name, none => .accepted (.named name)
  | none, some path => .accepted (.file path)
  | some _, some _ => .refused

/-- Exactly one of the options for the message has to be given. -/
def messageSource (s : Settings) : Reading MessageSource :=
  match s.message, s.messageHex, s.representative with
  | some words, none, none => .accepted (.text words)
  | none, some digits, none => .accepted (.hexBytes digits)
  | none, none, some m => .accepted (.representative m)
  | _, _, _ => .refused

/-- The digest function, SHA-256 when nothing is said. -/
def algorithm (s : Settings) : HashAlgorithm :=
  s.hash.getD .sha256

/-- The coefficients of a coordinate, which has to be given. -/
def coefficients (given : List (FixedNat limbCount)) : Reading (List (FixedNat limbCount)) :=
  if given.isEmpty then .refused else .accepted given

end Settings

namespace Command

/-- The options of a command for signing. -/
def signOptions : List OptionName :=
  [.curve, .params, .key, .nonce, .message, .messageHex, .representative, .hash]

/-- The options of a command for checking a signature. -/
def verifyOptions : List OptionName :=
  [.curve, .params, .publicX, .publicY, .c, .d, .message, .messageHex, .representative, .hash]

/-- The options of the command for public keys. -/
def publicKeyOptions : List OptionName :=
  [.curve, .params, .key]

def readSign (arguments : List String) : Reading Command := do
  let s ← Settings.read signOptions {} arguments
  let curve ← s.curveSource
  let key ← .ofOption s.key
  let nonce ← .ofOption s.nonce
  let message ← s.messageSource
  return .sign curve key nonce message s.algorithm

def readVerify (arguments : List String) : Reading Command := do
  let s ← Settings.read verifyOptions {} arguments
  let curve ← s.curveSource
  let x ← Settings.coefficients s.publicX
  let y ← Settings.coefficients s.publicY
  let c ← .ofOption s.c
  let d ← .ofOption s.d
  let message ← s.messageSource
  return .verify curve x y c d message s.algorithm

def readPublicKey (arguments : List String) : Reading Command := do
  let s ← Settings.read publicKeyOptions {} arguments
  let curve ← s.curveSource
  let key ← .ofOption s.key
  return .publicKey curve key

def readDemo (arguments : List String) : Reading Command := do
  let _ ← Settings.read [] {} arguments
  return .demo

/-- The names of the commands. -/
def names : List String :=
  ["sign", "verify", "pubkey", "demo"]

/-- Help can be asked for in general, or for one command. -/
def readHelp : List String → Reading Command
  | [] => .help
  | [name] => if names.contains name || name = "help" then .help else .refused
  | _ => .refused

/-- Reads the arguments of the program: the name of a command and what belongs to it. -/
def read : List String → Reading Command
  | "sign" :: rest => readSign rest
  | "verify" :: rest => readVerify rest
  | "pubkey" :: rest => readPublicKey rest
  | "demo" :: rest => readDemo rest
  | "help" :: rest => readHelp rest
  | argument :: _ =>
    match Argument.ofText argument with
    | .option "help" none => .help
    | .letters ('h' :: _) => .help
    | _ => .refused
  | [] => .refused

end Command

end NybergRueppel.CommandLine
