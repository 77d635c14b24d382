import StylusToScss.Pieces

/-!
# Paths

A path is a text of components separated by slashes. An empty component, and a dot behind the first
component, change nothing. The output of a file goes beside it: into its directory, under its stem
with another extension.

* `divide` separates the name of a file from its directory.
* `directoryOf`, `stemOf` and `beside` take a path apart and put the new one together.
-/

namespace StylusToScss.Path

/-- The components of a path as they are written. -/
def components (path : String) : List String :=
  (cutAt (· == '/') path.toList).map String.ofList

/-- The components that lead to the directory of a file to be written, and its name, which is empty
if the path ends with a slash. -/
def divide (path : String) : List String × String :=
  let named := ((components path).reverse.dropWhile (· == "")).reverse
  (named.dropLast ++ ["."],
    if path.toList.getLast? = some '/' then "" else named.getLast?.getD "")

/-- Whether a component changes nothing where it is not the first. -/
def isIdle (component : String) : Bool := component == "" || component == "."

/-- Components without the ones at their end that change nothing. The first one stays. -/
def withoutIdleEnd : List String → List String
  | [] => []
  | first :: rest => first :: (rest.reverse.dropWhile isIdle).reverse

/-- The last component that changes something. -/
def fileName (path : String) : String := (withoutIdleEnd (components path)).getLast?.getD ""

/-- The path that components write. A single empty one is the root. -/
def ofComponents (components : List String) : String :=
  if components = [""] then "/" else String.intercalate "/" components

/-- The directory of a path, empty for the working directory. -/
def directoryOf (path : String) : String :=
  ofComponents (withoutIdleEnd (withoutIdleEnd (components path)).dropLast)

/-- A file name up to its last dot, unless that is its first character. -/
def stemOf (name : String) : String :=
  let before := (name.toList.reverse.dropWhile (· != '.')).drop 1
  if before.isEmpty then name else String.ofList before.reverse

/-- The path of a name in a directory. -/
def join (directory name : String) : String :=
  if directory = "" then name
  else if directory.toList.getLast? = some '/' then directory ++ name
  else directory ++ "/" ++ name

/-- Whether a component is the name of an entry. -/
def isName (component : String) : Bool := !isIdle component && component != ".."

/-- The path beside a file with another extension. -/
def beside (path extension : String) : String :=
  let name := fileName path
  let stem := if isName name then stemOf name else "out"
  join (directoryOf path) (stem ++ "." ++ extension)

end StylusToScss.Path
