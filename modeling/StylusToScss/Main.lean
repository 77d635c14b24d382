import StylusToScss.CommandLine.Run

/-!
# The program

The outer layer of the command line: the disk of the operating system, and the program that runs on
it.
-/

namespace StylusToScss

/-- The number and the text of a failure of the operating system. -/
def systemFailure? : IO.Error → Option (UInt32 × String)
  | .alreadyExists _ code text | .otherError code text | .resourceBusy code text
  | .resourceVanished code text | .unsupportedOperation code text | .hardwareFault code text
  | .unsatisfiedConstraints code text | .illegalOperation code text | .protocolError code text
  | .timeExpired code text | .interrupted _ code text | .noFileOrDirectory _ code text
  | .invalidArgument _ code text | .permissionDenied _ code text | .resourceExhausted _ code text
  | .inappropriateType _ code text | .noSuchThing _ code text => some (code, text)
  | .unexpectedEof | .userError _ => none

/-- The failure to read or write that the operating system reports. Its number may be negated. -/
def FileError.ofSystem (error : IO.Error) : FileError :=
  match systemFailure? error with
  | none => .other (toString error)
  | some (code, text) =>
    match if code < 0x80000000 then code else 0 - code with
    | 2 => .notFound
    | 20 => .notADirectory
    | 21 => .isADirectory
    | 36 => .nameTooLong
    | number => .other (text ++ " (os error " ++ toString number ++ ")")

/-- Run an action and keep its failure as a value. -/
def attempt {α : Type} (action : IO α) : IO (Except FileError α) := do
  try
    return .ok (← action)
  catch error =>
    return .error (.ofSystem error)

/-- The disk of the operating system. -/
def systemDisk : Disk IO where
  present path := do
    match ← attempt (IO.FS.Handle.mk path .read) with
    | .error .notFound | .error .notADirectory | .error .nameTooLong => return false
    | _ => return true
  read path := do
    match ← attempt (IO.FS.readBinFile path) with
    | .error e => return .error e
    | .ok content =>
      match String.fromUTF8? content with
      | some text => return .ok text
      | none => return .error .notText
  write path text := attempt (IO.FS.writeFile path text)

end StylusToScss

open StylusToScss in
/-- Run the command line on the files of the operating system. -/
def main (arguments : List String) : IO UInt32 := do
  let outcome ← runArguments systemDisk arguments
  for warning in outcome.warnings do
    IO.eprintln ("Warning: " ++ warning.message)
  IO.print outcome.output
  match outcome.notice with
  | .usage => IO.eprint usageText
  | .text text => IO.eprint text
  return outcome.exit.toUInt32
