import StylusToScss.CommandLine.Path

/-!
# Files

The command line works on files through a `Disk`: it asks whether a path exists, reads a text and
writes one. `Files` is a disk by itself: files by the places they are at. The directories are those
that hold a file, the working directory, the ones above it and the root. How the root leads to the
working directory is not known.

* `Files.locate` follows a path component by component, as the operating system does.
* `Files.lookup_put`: putting a file in changes that file and no other one.
* `Files.within` are the files of the working directory.
* `Files.disk` is the disk of a set of files.
-/

namespace StylusToScss

/-- Why a file cannot be read or written. -/
inductive FileError where
  | notFound
  | notADirectory
  | isADirectory
  | nameTooLong
  | notText
  | other (text : String)
  deriving DecidableEq, Repr

/-- The wording of a failure to read or write. -/
def FileError.message : FileError → String
  | notFound => "No such file or directory (os error 2)"
  | notADirectory => "Not a directory (os error 20)"
  | isADirectory => "Is a directory (os error 21)"
  | nameTooLong => "File name too long (os error 36)"
  | notText => "stream did not contain valid UTF-8"
  | other text => text

/-- What the command line does with files. -/
structure Disk (m : Type → Type) where
  present : String → m Bool
  read : String → m (Except FileError String)
  write : String → String → m (Except FileError Unit)

/-! ## Files and their places -/

/-- A place that a path leads to, by the components that lead there: names from the working
directory on, names behind some `..` for what is above it, and names behind a slash for what is
reached from the root. -/
abbrev Place := List String

/-- Files by their places. -/
abbrev Files := List (Place × ByteArray)

/-- What is at a place. -/
inductive Entry where
  | file (content : ByteArray)
  | directory
  | missing

namespace Files

/-- Where a path that starts with a slash starts. -/
def root : Place := ["/"]

/-- Whether a place is the working directory or one of those above it. -/
def isAbove (place : Place) : Bool := place.all (· == "..")

/-- What is at a place. -/
def entry (files : Files) (place : Place) : Entry :=
  match files.lookup place with
  | some content => .file content
  | none =>
    if isAbove place ∨ place = root ∨ files.any fun file => place.isPrefixOf file.1 then .directory
    else .missing

/-- Follow one component from a directory. A name has at most 255 bytes. -/
def follow (place : Place) (component : String) : Except FileError Place :=
  if component.utf8ByteSize > 255 then .error .nameTooLong
  else if Path.isIdle component then .ok place
  else if component ≠ ".." then .ok (place ++ [component])
  else if isAbove place then .ok (place ++ [".."])
  else if place = root then .ok place
  else .ok place.dropLast

/-- Follow components. Each is followed from a directory. -/
def followAll (files : Files) (place : Place) : List String → Except FileError Place
  | [] => .ok place
  | component :: rest =>
    match files.entry place with
    | .file _ => .error .notADirectory
    | .missing => .error .notFound
    | .directory =>
      match follow place component with
      | .ok next => followAll files next rest
      | .error e => .error e

/-- The place that components lead to. A path that starts with a slash starts at the root. -/
def locate (files : Files) : List String → Except FileError Place
  | [] => .error .notFound
  | [""] => .error .notFound
  | "" :: rest => followAll files root rest
  | components => followAll files [] components

/-- The place that a path leads to. A path has at most 4095 bytes. -/
def find (files : Files) (path : String) : Except FileError Place :=
  if path.utf8ByteSize > 4095 then .error .nameTooLong else files.locate (Path.components path)

/-- Whether something is at a path. -/
def present (files : Files) (path : String) : Bool :=
  match files.find path with
  | .ok place => !(files.entry place matches .missing)
  | .error _ => false

/-- The text of the file at a path. -/
def read (files : Files) (path : String) : Except FileError String :=
  match files.find path with
  | .error e => .error e
  | .ok place =>
    match files.entry place with
    | .missing => .error .notFound
    | .directory => .error .isADirectory
    | .file content =>
      match String.fromUTF8? content with
      | some text => .ok text
      | none => .error .notText

/-- The files with the content of those at a place replaced. -/
def replace (files : Files) (place : Place) (content : ByteArray) : Files :=
  files.map fun file => (file.1, if file.1 = place then content else file.2)

/-- The files with a file put in. -/
def put (files : Files) (place : Place) (content : ByteArray) : Files :=
  if (files.lookup place).isSome then files.replace place content
  else files ++ [(place, content)]

theorem lookup_replace (files : Files) (place other : Place) (content : ByteArray) :
    (files.replace place content).lookup other =
      (files.lookup other).map fun old => if other = place then content else old := by
  induction files with
  | nil => rfl
  | cons file rest ih =>
    obtain ⟨name, old⟩ := file
    have ih : List.lookup other (rest.map fun file =>
        (file.1, if file.1 = place then content else file.2)) = _ := ih
    by_cases h : other = name
    · subst h
      simp [replace]
    · have : (other == name) = false := by simp [h]
      simp [replace, List.lookup_cons, this, ih]

theorem lookup_put (files : Files) (place other : Place) (content : ByteArray) :
    (files.put place content).lookup other =
      if other = place then some content else files.lookup other := by
  unfold put
  split
  · next h =>
    obtain ⟨old, hold⟩ := Option.isSome_iff_exists.1 h
    rw [lookup_replace]
    by_cases e : other = place
    · subst e
      simp [hold]
    · simp [e]
  · next h =>
    have absent : files.lookup place = none := Option.not_isSome_iff_eq_none.1 h
    rw [List.lookup_append]
    by_cases e : other = place
    · subst e
      simp [absent]
    · have : (other == place) = false := by simp [e]
      simp [List.lookup_cons, this, e]

/-- The place of a file to be written under a name in a directory. -/
def placeIn (files : Files) (name : String) (directory : Place) : Except FileError Place :=
  if name = "" ∨ name = "." ∨ name = ".." then .error .isADirectory
  else if name.utf8ByteSize > 255 then .error .nameTooLong
  else if files.entry (directory ++ [name]) matches .directory then .error .isADirectory
  else .ok (directory ++ [name])

/-- The place of the file to be written at a path: a name in a directory that is there. A path that
ends with a slash, or leads to a directory, names no file. -/
def target (files : Files) (path : String) : Except FileError Place :=
  if path = "" then .error .notFound
  else if path.utf8ByteSize > 4095 then .error .nameTooLong
  else (files.locate (Path.divide path).1).bind (files.placeIn (Path.divide path).2)

/-- Write a text to a path. -/
def write (files : Files) (path text : String) : Except FileError Files :=
  (files.target path).map fun place => files.put place text.toUTF8

/-- The files of the working directory. -/
def within (files : Files) : Files :=
  files.filter fun file => file.1.head? ≠ some ".." ∧ file.1.head? ≠ some "/"

/-- The disk of a set of files. -/
def disk : Disk (StateM Files) where
  present path := do return (← get).present path
  read path := do return (← get).read path
  write path text := do
    match (← get).write path text with
    | .ok files =>
      set files
      return .ok ()
    | .error e => return .error e

end Files
end StylusToScss
