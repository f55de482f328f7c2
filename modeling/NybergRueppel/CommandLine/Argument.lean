import NybergRueppel.BufferedInt.Written
import NybergRueppel.Digest.Algorithm
import NybergRueppel.FixedNat.Written

/-!
Reading the arguments of a command. Arguments are looked at from the left; the first one that asks
for help or cannot be taken decides, and otherwise the options fill the settings of the command.
Whether the settings suffice is for the command to say.
-/
namespace NybergRueppel.CommandLine

/-- The limbs of the numbers that the command line works with, enough for curves of 256 bits. -/
abbrev limbCount : Nat := 4

/-- The forms of an argument. -/
inductive Argument where
  /-- A name after two hyphens, with or without a value behind an equals sign. -/
  | option (name : String) (value : Option String)
  /-- Letters after one hyphen. -/
  | letters (cs : List Char)
  /-- Two hyphens, which end the options. -/
  | endMark
  /-- Any other text; a single hyphen is one. -/
  | plain (text : String)

/-- Splits the text after two hyphens at the first equals sign. -/
def Argument.ofOptionText (cs : List Char) : Argument :=
  match cs.dropWhile (· ≠ '=') with
  | [] => .option (String.ofList cs) none
  | _ :: value => .option (String.ofList (cs.takeWhile (· ≠ '='))) (some (String.ofList value))

/-- The form of an argument. -/
def Argument.ofText (text : String) : Argument :=
  match text.toList with
  | ['-', '-'] => .endMark
  | '-' :: '-' :: cs => Argument.ofOptionText cs
  | '-' :: c :: cs => .letters (c :: cs)
  | _ => .plain text

/-- The options that take a value. -/
inductive OptionName where
  | curve
  | params
  | key
  | nonce
  | message
  | messageHex
  | representative
  | hash
  | publicX
  | publicY
  | c
  | d
  deriving DecidableEq

/-- Looks up an option by its name without the hyphens. -/
def OptionName.ofText? : String → Option OptionName
  | "curve" => some .curve
  | "params" => some .params
  | "key" => some .key
  | "nonce" => some .nonce
  | "message" => some .message
  | "message-hex" => some .messageHex
  | "msg-hex" => some .representative
  | "hash" => some .hash
  | "pub-x" => some .publicX
  | "pub-y" => some .publicY
  | "c" => some .c
  | "d" => some .d
  | _ => none

/-- The values that the options of a command gave. -/
structure Settings where
  curve : Option String := none
  params : Option String := none
  key : Option BufferedInt := none
  nonce : Option BufferedInt := none
  message : Option String := none
  messageHex : Option String := none
  representative : Option BufferedInt := none
  hash : Option HashAlgorithm := none
  publicX : List (FixedNat limbCount) := []
  publicY : List (FixedNat limbCount) := []
  c : Option BufferedInt := none
  d : Option BufferedInt := none

/-- Fills a place that is still empty with a value that could be read. -/
def fill? {α : Type} : Option α → Option α → Option (Option α)
  | none, some value => some (some value)
  | _, _ => none

/-- The pieces between commas; there is always one. -/
def splitAtCommas : List Char → List (List Char)
  | [] => [[]]
  | ',' :: rest => [] :: splitAtCommas rest
  | c :: rest =>
    match splitAtCommas rest with
    | [] => [[c]]
    | piece :: pieces => (c :: piece) :: pieces

/-- Reads a number of any size. -/
def readNumber? (text : String) : Option BufferedInt :=
  (BufferedInt.ofHex text).toOption

/-- Reads the coefficients of a coordinate, which commas divide. -/
def readCoefficients? (text : String) : Option (List (FixedNat limbCount)) :=
  (splitAtCommas text.toList).mapM fun cs => FixedNat.ofHex? limbCount (String.ofList cs)

/-- Reads the path of a file, which cannot be empty. -/
def readPath? (text : String) : Option String :=
  if text.isEmpty then none else some text

/-- Takes the value of an option. Only the coefficients of coordinates may be given in several
options. -/
def Settings.put? (s : Settings) (name : OptionName) (text : String) : Option Settings :=
  match name with
  | .curve => (fill? s.curve (some text)).map ({ s with curve := · })
  | .params => (fill? s.params (readPath? text)).map ({ s with params := · })
  | .key => (fill? s.key (readNumber? text)).map ({ s with key := · })
  | .nonce => (fill? s.nonce (readNumber? text)).map ({ s with nonce := · })
  | .message => (fill? s.message (some text)).map ({ s with message := · })
  | .messageHex => (fill? s.messageHex (some text)).map ({ s with messageHex := · })
  | .representative =>
    (fill? s.representative (readNumber? text)).map ({ s with representative := · })
  | .hash => (fill? s.hash (HashAlgorithm.ofName? text)).map ({ s with hash := · })
  | .publicX => (readCoefficients? text).map ({ s with publicX := s.publicX ++ · })
  | .publicY => (readCoefficients? text).map ({ s with publicY := s.publicY ++ · })
  | .c => (fill? s.c (readNumber? text)).map ({ s with c := · })
  | .d => (fill? s.d (readNumber? text)).map ({ s with d := · })

/-- How reading arguments ends. -/
inductive Reading (α : Type) where
  | accepted (value : α)
  | help
  | refused

/-- Goes on with a value that was accepted. -/
def Reading.bind {α β : Type} : Reading α → (α → Reading β) → Reading β
  | .accepted value, next => next value
  | .help, _ => .help
  | .refused, _ => .refused

/-- A value that may be absent; its absence is a refusal. -/
def Reading.ofOption {α : Type} : Option α → Reading α
  | some value => .accepted value
  | none => .refused

instance : Monad Reading where
  pure := .accepted
  bind := Reading.bind

/-- Finds an option among those of a command and takes its value. -/
def Settings.putNamed? (s : Settings) (allowed : List OptionName) (name value : String) :
    Option Settings :=
  match OptionName.ofText? name with
  | some known => if allowed.contains known then s.put? known value else none
  | none => none

/-- Reads the arguments of a command that has the allowed options. The value of an option may be the
next argument, unless that starts with a hyphen and goes on. -/
def Settings.read (allowed : List OptionName) (s : Settings) : List String → Reading Settings
  | [] => .accepted s
  | argument :: rest =>
    match Argument.ofText argument with
    | .option name (some value) =>
      match s.putNamed? allowed name value with
      | some s => Settings.read allowed s rest
      | none => .refused
    | .option name none =>
      if name = "help" then .help
      else match rest with
        | [] => .refused
        | next :: rest =>
          match Argument.ofText next with
          | .plain value =>
            match s.putNamed? allowed name value with
            | some s => Settings.read allowed s rest
            | none => .refused
          | _ => .refused
    | .letters ('h' :: _) => .help
    | .endMark => if rest.isEmpty then .accepted s else .refused
    | _ => .refused

end NybergRueppel.CommandLine
