import StylusToScss.CommandLine.Arguments
import StylusToScss.CommandLine.Disk
import StylusToScss.Scss.Conversion

/-!
# Running the command line

`build` reads a file, converts it and writes the result; `check` reads a file and converts it, and
writes nothing. What they do is a program over any disk, so it can be run on real files and reasoned
about on a set of files.

* `Command.run` runs a command, `runArguments` reads the arguments and runs what they ask for.
-/

namespace StylusToScss

/-- The name that the program goes by. -/
def programName : String := "stylconv"

/-- The version of the program. -/
def version : String := "0.3.0"

/-- What a run says about itself. -/
inductive Notice where
  /-- The arguments ask for nothing that can be done. -/
  | usage
  | text (s : String)
  deriving DecidableEq, Repr

/-- What a run comes to: the exit status, the output, what it says about itself, and the warnings.
-/
structure Outcome where
  exit : Nat
  output : String
  notice : Notice
  warnings : List Warning
  deriving DecidableEq, Repr

namespace Outcome

/-- A run that fails with one line. -/
def failed (exit : Nat) (line : String) : Outcome := ⟨exit, "", .text (line ++ "\n"), []⟩

/-- A run that succeeds with one line. -/
def done (line : String) (warnings : List Warning) : Outcome :=
  ⟨0, "", .text (line ++ "\n"), warnings⟩

/-- A run that prints something. -/
def printed (output : String) (warnings : List Warning) : Outcome := ⟨0, output, .text "", warnings⟩

end Outcome

section
variable {m : Type → Type} [Monad m]

/-- The source text of a file, or the run that fails for want of it. -/
def readSource (disk : Disk m) (path : String) : m (Except Outcome String) := do
  if ← disk.present path then
    match ← disk.read path with
    | .ok source => return .ok source
    | .error e =>
      return .error (.failed 1 ("Error reading " ++ path ++ ": " ++ e.message))
  else return .error (.failed 1 ("Error: file not found: " ++ path))

/-- The dialect of a name, or the run that fails for want of it. -/
def chooseDialect (name : String) : Except Outcome Dialect :=
  match Dialect.ofName name with
  | .ok dialect => .ok dialect
  | .error e => .error (.failed 2 ("Error: " ++ e.message))

/-- Write the text of a conversion to a file. -/
def writeOutput (disk : Disk m) (path : String) (converted : Converted) : m Outcome := do
  match ← disk.write path (converted.text ++ "\n") with
  | .ok () => return .done ("Built: " ++ path) converted.warnings
  | .error e => return .failed 1 ("Error writing " ++ path ++ ": " ++ e.message)

/-- Convert a file. The result goes to the output path, to the standard output for `-`, and beside
the file where no path is given. -/
def runBuild (disk : Disk m) (path dialect : String) (out : Option String) (lenient : Bool) :
    m Outcome := do
  match ← readSource disk path with
  | .error outcome => return outcome
  | .ok source =>
    match chooseDialect dialect with
    | .error outcome => return outcome
    | .ok dialect =>
      match convert ⟨dialect, if lenient then .lenient else .strict⟩ source with
      | .error e => return .failed 1 ("Error in " ++ path ++ ": " ++ e.message)
      | .ok converted =>
        if out = some "-" then return .printed (converted.text ++ "\n") converted.warnings
        else writeOutput disk (out.getD (Path.beside path dialect.extension)) converted

/-- Check that a file can be converted. -/
def runCheck (disk : Disk m) (path dialect : String) : m Outcome := do
  match ← readSource disk path with
  | .error outcome => return outcome
  | .ok source =>
    match Stylesheet.ofSource source with
    | .error fault => return .failed 1 ("Parse error: " ++ fault.parseMessage)
    | .ok sheet =>
      match chooseDialect dialect with
      | .error outcome => return outcome
      | .ok dialect =>
        match sheet.convert ⟨dialect, .strict⟩ with
        | .error e => return .failed 1 ("Conversion error: " ++ e.message)
        | .ok converted => return .done ("OK: " ++ path) converted.warnings

/-- Run a command. -/
def Command.run (disk : Disk m) : Command → m Outcome
  | .build path dialect out lenient => runBuild disk path dialect out lenient
  | .check path dialect => runCheck disk path dialect

/-- How the program is called. -/
def usageText : String :=
  "Usage: " ++ programName ++ " [-v] build [--to DIALECT] [--out FILE] [--lenient] PATH\n" ++
  "       " ++ programName ++ " [-v] check [--to DIALECT] PATH\n"

/-- Read the arguments after the name of the program, and run what they ask for. -/
def runArguments (disk : Disk m) (arguments : List String) : m Outcome :=
  match Invocation.ofArguments arguments with
  | .command command => command.run disk
  | .version => return .printed (programName ++ " " ++ version ++ "\n") []
  | .help => return .printed usageText []
  | .invalid => return ⟨2, "", .usage, []⟩

end

/-- A run on a set of files: what it comes to, and the files of the working directory after it. -/
def runOn (files : Files) (arguments : List String) : Outcome × Files :=
  ((runArguments Files.disk arguments).run files).map id Files.within

end StylusToScss
