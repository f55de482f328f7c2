import NybergRueppel.CommandLine.Run
import NybergRueppel.Text.Elapsed

/-!
The program. Files are read and clocks are looked at here; all else is decided by the command line.
-/
namespace NybergRueppel.Main

/-- A number of the operating system; some libraries report it with the opposite sign. -/
def systemNumber (code : UInt32) : Nat :=
  min code.toNat (0 - code).toNat

/-- The reason and the number that the operating system gives for an error. -/
def systemReason (error : IO.Error) : String :=
  match error with
  | .noFileOrDirectory _ code details | .interrupted _ code details
  | .alreadyExists _ code details | .invalidArgument _ code details
  | .permissionDenied _ code details | .resourceExhausted _ code details
  | .inappropriateType _ code details | .noSuchThing _ code details
  | .otherError code details | .resourceBusy code details | .resourceVanished code details
  | .unsupportedOperation code details | .hardwareFault code details
  | .unsatisfiedConstraints code details | .illegalOperation code details
  | .protocolError code details | .timeExpired code details =>
    details.capitalize ++ " (os error " ++ toString (systemNumber code) ++ ")"
  | .unexpectedEof | .userError _ => toString error

/-- Reads a file as UTF-8. -/
def readFile (path : String) : IO (Except String String) := do
  try
    match String.fromUTF8? (← IO.FS.readBinFile path) with
    | some text => return .ok text
    | none => return .error "stream did not contain valid UTF-8"
  catch error => return .error (systemReason error)

/-- Computes a value and measures the time. -/
def timed {α : Type} (compute : Unit → α) : IO (α × String) := do
  let start ← IO.monoNanosNow
  let value ← IO.lazyPure compute
  let stop ← IO.monoNanosNow
  return (value, Text.elapsed (stop - start))

end NybergRueppel.Main

def main (arguments : List String) : IO UInt32 := do
  let outside : NybergRueppel.CommandLine.Surroundings IO :=
    { contents := NybergRueppel.Main.readFile, timed := NybergRueppel.Main.timed }
  let report ← NybergRueppel.CommandLine.run outside arguments
  IO.print report.output
  IO.eprint report.errors
  return report.exitCode
