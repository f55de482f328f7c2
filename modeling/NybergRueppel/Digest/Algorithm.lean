import NybergRueppel.Digest.Words
import NybergRueppel.Failure

/-!
The digest functions that messages can be hashed with, their names, and hashing in one go or piece
by piece.
-/
namespace NybergRueppel

/-- The digest functions. -/
inductive HashAlgorithm where
  | sha224
  | sha256
  | sha384
  | sha512
  deriving DecidableEq

/-- What the processor offers for hashing. -/
structure ProcessorFeatures where
  /-- Instructions for the functions on 32-bit words. -/
  sha : Bool

/-- The ways in which a digest can be computed; they do not differ in the result. -/
inductive HashBackend where
  | portable
  | shaExtensions
  deriving DecidableEq

/-- The name of a backend. -/
def HashBackend.name : HashBackend → String
  | .portable => "Portable"
  | .shaExtensions => "ShaExtensions"

namespace HashAlgorithm

/-- The bytes of a digest. -/
def outputLength : HashAlgorithm → Nat
  | .sha224 => 28
  | .sha256 => 32
  | .sha384 => 48
  | .sha512 => 64

/-- The name that is shown. -/
def name : HashAlgorithm → String
  | .sha224 => "SHA-224"
  | .sha256 => "SHA-256"
  | .sha384 => "SHA-384"
  | .sha512 => "SHA-512"

/-- Looks up a function by its name. The case of ASCII letters and all hyphens are ignored. -/
def ofName? (text : String) : Option HashAlgorithm :=
  match String.ofList ((text.toList.map Char.toLower).filter (· != '-')) with
  | "sha224" => some .sha224
  | "sha256" => some .sha256
  | "sha384" => some .sha384
  | "sha512" => some .sha512
  | _ => none

/-- Looks up a function by its name and reports a name that is unknown. -/
def ofName (text : String) : Except Failure HashAlgorithm :=
  match ofName? text with
  | some algorithm => .ok algorithm
  | none => .error (.undecodable (.unknownHash text))

/-- The backend for a processor: only the functions on 32-bit words have instructions of their
own. -/
def backend (algorithm : HashAlgorithm) (features : ProcessorFeatures) : HashBackend :=
  match algorithm with
  | .sha224 | .sha256 => if features.sha then .shaExtensions else .portable
  | .sha384 | .sha512 => .portable

end HashAlgorithm

/-- A digest in progress, on words of one of the two widths. -/
inductive HashProgress where
  | narrow (progress : Digest.Progress UInt32)
  | wide (progress : Digest.Progress UInt64)

/-- Hashes a message piece by piece. -/
structure Hasher where
  algorithm : HashAlgorithm
  progress : HashProgress

namespace Hasher

def start (algorithm : HashAlgorithm) : Hasher where
  algorithm := algorithm
  progress :=
    match algorithm with
    | .sha224 => .narrow (.start Digest.start224)
    | .sha256 => .narrow (.start Digest.start256)
    | .sha384 => .wide (.start Digest.start384)
    | .sha512 => .wide (.start Digest.start512)

/-- Takes in the next bytes of the message. -/
def update (hasher : Hasher) (bytes : List UInt8) : Hasher :=
  { hasher with
    progress :=
      match hasher.progress with
      | .narrow p => .narrow (p.update Digest.narrow bytes)
      | .wide p => .wide (p.update Digest.wide bytes) }

/-- The digest of the bytes that were taken in. -/
def finish (hasher : Hasher) : List UInt8 :=
  let bytes :=
    match hasher.progress with
    | .narrow p => p.finish Digest.narrow
    | .wide p => p.finish Digest.wide
  bytes.take hasher.algorithm.outputLength

end Hasher

/-- The digest of a message. -/
def HashAlgorithm.digest (algorithm : HashAlgorithm) (message : List UInt8) : List UInt8 :=
  ((Hasher.start algorithm).update message).finish

end NybergRueppel
