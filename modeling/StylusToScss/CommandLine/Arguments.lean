import StylusToScss.Pieces

/-!
# The arguments of the command line

There are two commands, `build` and `check`, each with one path and options. An option has its value
behind an equals sign or in the next argument; letters may share one hyphen, and a letter takes what
is left of its argument as its value. `--` ends the options. Each option may be given once, apart
from the one for more output.

* `Invocation.ofArguments` reads the arguments after the name of the program.
-/

namespace StylusToScss

/-- A command with its path and options. -/
inductive Command where
  | build (path dialect : String) (out : Option String) (lenient : Bool)
  | check (path dialect : String)
  deriving DecidableEq, Repr

/-- What the arguments ask for. -/
inductive Invocation where
  | command (command : Command)
  | version
  | help
  | invalid
  deriving DecidableEq, Repr

/-- The names of the commands. -/
inductive CommandName where
  | build
  | check
  deriving DecidableEq, Repr

/-- The options and the path read so far. -/
structure Given where
  path : Option String
  dialect : Option String
  out : Option String
  lenient : Bool
  deriving DecidableEq, Repr

/-- What an argument turns out to be. -/
inductive Reading where
  | proceed (given : Given)
  /-- The argument ends with an option whose value follows. -/
  | awaiting (store : String → Option Given)
  | help
  | invalid

/-- The reading after a value or an option is taken. -/
def Reading.ofTaken : Option Given → Reading
  | some given => .proceed given
  | none => .invalid

namespace Given

/-- Nothing has been read. -/
def nothing : Given := ⟨none, none, none, false⟩

/-- Take the path, of which there is one. -/
def takePath (given : Given) (path : String) : Option Given :=
  if given.path.isSome then none else some { given with path := some path }

/-- Take the dialect, which may be given once. -/
def takeDialect (given : Given) (dialect : String) : Option Given :=
  if given.dialect.isSome then none else some { given with dialect := some dialect }

/-- Take the output path, which may be given once. -/
def takeOut (given : Given) (out : String) : Option Given :=
  if given.out.isSome then none else some { given with out := some out }

/-- Take the option to leave out unsupported constructs, which may be given once. -/
def takeLenient (given : Given) : Option Given :=
  if given.lenient then none else some { given with lenient := true }

/-- The command, if there is a path. -/
def command (given : Given) (name : CommandName) : Invocation :=
  match given.path with
  | none => .invalid
  | some path =>
    let dialect := given.dialect.getD "scss"
    match name with
    | .build => .command (.build path dialect given.out given.lenient)
    | .check => .command (.check path dialect)

/-! ## Options -/

/-- Read the letters behind one hyphen. -/
def readLetters (given : Given) (name : CommandName) : List Char → Reading
  | [] => .proceed given
  | 'v' :: rest => given.readLetters name rest
  | 'h' :: _ => .help
  | 'o' :: rest =>
    if name = .build then
      match rest with
      | [] => .awaiting given.takeOut
      | '=' :: value => .ofTaken (given.takeOut (String.ofList value))
      | value => .ofTaken (given.takeOut (String.ofList value))
    else .invalid
  | _ => .invalid

/-- Read an option with a value, which stands behind an equals sign or follows. -/
def readValued (take : String → Option Given) : Option String → Reading
  | some value => .ofTaken (take value)
  | none => .awaiting take

/-- Read a word behind two hyphens, and its value if an equals sign announces one. -/
def readWord (given : Given) (name : CommandName) (word : String) (value : Option String) :
    Reading :=
  match word, value with
  | "verbose", none => .proceed given
  | "help", none => .help
  | "to", value => readValued given.takeDialect value
  | "out", value => if name = .build then readValued given.takeOut value else .invalid
  | "lenient", none => if name = .build then .ofTaken given.takeLenient else .invalid
  | _, _ => .invalid

/-- Divide a word at its first equals sign. -/
def divideWord (word : List Char) : String × Option String :=
  let name := word.takeWhile (· != '=')
  let value := match word.dropWhile (· != '=') with
    | [] => none
    | _ :: value => some (String.ofList value)
  (String.ofList name, value)

/-- Read one argument of a command. -/
def readOne (given : Given) (name : CommandName) (argument : String) : Reading :=
  match argument.toList with
  | '-' :: '-' :: word => given.readWord name (divideWord word).1 (divideWord word).2
  | '-' :: c :: letters => given.readLetters name (c :: letters)
  | _ => .ofTaken (given.takePath argument)

/-! ## All arguments of a command -/

/-- Whether an argument is an option: a hyphen with something behind it. -/
def isOption (argument : String) : Bool :=
  match argument.toList with
  | '-' :: _ :: _ => true
  | _ => false

/-- Read the arguments behind `--`, which are all paths. -/
def readPaths (given : Given) (name : CommandName) : List String → Invocation
  | [] => given.command name
  | path :: rest =>
    match given.takePath path with
    | some given => given.readPaths name rest
    | none => .invalid

/-- Read the arguments of a command. -/
def readAll (given : Given) (name : CommandName) : List String → Invocation
  | [] => given.command name
  | "--" :: rest => given.readPaths name rest
  | argument :: rest =>
    match given.readOne name argument with
    | .proceed given => given.readAll name rest
    | .help => .help
    | .invalid => .invalid
    | .awaiting store =>
      match rest with
      | [] => .invalid
      | value :: rest =>
        if isOption value then .invalid
        else match store value with
          | some given => given.readAll name rest
          | none => .invalid

end Given

namespace Invocation

/-- Read the letters behind one hyphen before the command: what they ask for, if anything. -/
def ofLetters? : List Char → Option Invocation
  | [] => none
  | 'v' :: rest => ofLetters? rest
  | 'V' :: _ => some .version
  | 'h' :: _ => some .help
  | _ => some .invalid

/-- Read what help is asked for: on the program, or on one of its commands, where `help` is one. -/
def ofTopics : List String → Invocation
  | [] | ["build"] | ["check"] | ["help"] => .help
  | _ => .invalid

/-- Read the arguments after the name of the program. -/
def ofArguments : List String → Invocation
  | [] => .invalid
  | "build" :: rest => Given.nothing.readAll .build rest
  | "check" :: rest => Given.nothing.readAll .check rest
  | "help" :: topics => ofTopics topics
  | "--help" :: _ => .help
  | "--version" :: _ => .version
  | "--verbose" :: rest => ofArguments rest
  | argument :: rest =>
    match argument.toList with
    | '-' :: '-' :: _ => .invalid
    | '-' :: c :: letters => (ofLetters? (c :: letters)).getD (ofArguments rest)
    | _ => .invalid

end Invocation
end StylusToScss
