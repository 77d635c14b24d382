import StylusToScss.Scss.Statement
import StylusToScss.Statement.OfTokens

/-!
# Converting a stylesheet

`Stylesheet.convert` writes a tree, `convert` reads a source text and writes it. The options name
the dialect to write and what to do with unsupported constructs.
-/

namespace StylusToScss

/-- The dialects that can be written. -/
inductive Dialect where
  | scss
  deriving DecidableEq, Repr

namespace Dialect

/-- The name of a dialect. -/
def name : Dialect → String
  | scss => "scss"

/-- The extension of the files of a dialect. -/
def extension (dialect : Dialect) : String := dialect.name

/-- The dialect of a name, in any case of its ASCII letters and with blanks around it. -/
def ofName (name : String) : Except ConversionError Dialect :=
  if (Text.trim name.toList).map Char.toLower = "scss".toList then .ok scss
  else .error (.unknownDialect name)

end Dialect

/-- What to write, and what to do with unsupported constructs. -/
structure Options where
  dialect : Dialect
  policy : Policy
  deriving DecidableEq, Repr

/-- A converted stylesheet and the warnings that converting it gave. -/
structure Converted where
  text : String
  warnings : List Warning
  deriving DecidableEq, Repr

/-- Write a tree. -/
def Stylesheet.convert (options : Options) (sheet : Stylesheet) :
    Except ConversionError Converted :=
  match (statements ⟨options.policy, none⟩ sheet.nodes).run Progress.start with
  | (.ok marks, progress) => .ok ⟨layOut marks, progress.warnings⟩
  | (.error e, _) => .error e

/-- Read a source text and write it. -/
def convert (options : Options) (source : String) : Except ConversionError Converted :=
  match Stylesheet.ofSource source with
  | .ok sheet => sheet.convert options
  | .error fault => .error (.parse fault)

end StylusToScss
