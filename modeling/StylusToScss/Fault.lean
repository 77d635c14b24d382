import StylusToScss.Token.Basic

/-!
# Causes of failure

Every failure of the conversion is a cause, with the place or line it is reported at: `LexFault`
while cutting tokens, `ParseFault` while reading statements and values, `ShapeFault` and the other
constructors of `ConversionError` while writing the stylesheet. `message` gives the wording of each.
-/

namespace StylusToScss

/-- Why a source text has no tokens. -/
inductive LexFault where
  | unexpectedCharacter (c : Char)
  | misalignedIndentation (width : Nat)
  | unterminatedComment
  | unterminatedString
  | unterminatedEscape
  | unterminatedUrl
  | invalidNumber (text : String)
  deriving DecidableEq, Repr

/-- The wording of a failure to cut tokens. -/
def LexFault.message : LexFault → String
  | unexpectedCharacter c => "Unexpected character: " ++ Text.quoted c
  | misalignedIndentation width =>
    "Indentation does not match any outer level (got " ++ Nat.repr width ++ " columns)"
  | unterminatedComment => "Unterminated block comment"
  | unterminatedString => "Unterminated string"
  | unterminatedEscape => "Unterminated escape sequence"
  | unterminatedUrl => "Unterminated url()"
  | invalidNumber text => "Invalid number: '" ++ text ++ "'"

/-- Why tokens are no stylesheet, or no value. -/
inductive ParseFault where
  | lexical (fault : LexFault)
  | unexpectedIndentation
  | blockExpected
  | strayElse
  | pathExpected
  | malformedElse
  | loopVariableExpected
  | loopKeyExpected
  | loopInExpected
  | selectorExpected
  | propertyNameExpected
  | propertyValueExpected (name : String)
  | emptyParameter
  | invalidParameter
  | unterminatedInterpolation (text : String)
  | emptyInterpolation (text : String)
  | valueExpected
  | rightParenExpected
  | unexpectedToken (kind : Kind)
  /-- A token or a stretch of text was asked for that is not there. -/
  | outOfRange
  deriving DecidableEq, Repr

/-- The wording of a failure to read statements or a value. -/
def ParseFault.message : ParseFault → String
  | lexical fault => fault.message
  | unexpectedIndentation => "Unexpected indentation"
  | blockExpected => "Expected an indented block"
  | strayElse => "'else' without a matching 'if'"
  | pathExpected => "Expected a path after @import"
  | malformedElse => "Expected 'if' or the end of the line after 'else'"
  | loopVariableExpected => "Expected a variable name after 'for'"
  | loopKeyExpected => "Expected a key name after ','"
  | loopInExpected => "Expected 'in' in for loop"
  | selectorExpected => "Expected a selector after ','"
  | propertyNameExpected => "Expected a property name before ':'"
  | propertyValueExpected name => "Expected a value for property '" ++ name ++ "'"
  | emptyParameter => "Empty parameter"
  | invalidParameter => "Invalid parameter"
  | unterminatedInterpolation text => "Unterminated interpolation in '" ++ text ++ "'"
  | emptyInterpolation text => "Empty interpolation in '" ++ text ++ "'"
  | valueExpected => "Expected a value"
  | rightParenExpected => "Expected ')'"
  | unexpectedToken kind => "Unexpected " ++ kind.shown ++ " in expression"
  | outOfRange => "Access out of range"

/-- Which shape that writing relies on a tree lacks. The kinds are names of node kinds. -/
inductive ShapeFault where
  | groupWithoutSelectors
  | importWithoutPath
  | notStatement (kind : String)
  | notValue (kind : String)
  | notAlternative (kind : String)
  | notParameter (kind : String)
  deriving DecidableEq, Repr

/-- The wording of a missing shape. -/
def ShapeFault.message : ShapeFault → String
  | groupWithoutSelectors => "selector group without selectors"
  | importWithoutPath => "import without a path"
  | notStatement kind => "`" ++ kind ++ "` cannot appear as a statement"
  | notValue kind => "`" ++ kind ++ "` cannot appear inside an expression"
  | notAlternative kind => "`" ++ kind ++ "` cannot be an else branch"
  | notParameter kind => "`" ++ kind ++ "` cannot be a parameter"

/-- Why a conversion fails. -/
inductive ConversionError where
  | parse (fault : Located ParseFault)
  | unsupported (kind : String) (line : Nat)
  | malformed (shape : ShapeFault) (line : Nat)
  | unknownDialect (name : String)
  deriving DecidableEq, Repr

/-- A construct that a lenient conversion left out. -/
structure Warning where
  kind : String
  line : Nat
  deriving DecidableEq, Repr

/-- The wording of a failure at a place. -/
def placed (what : String) (line column : Nat) (cause : String) : String :=
  what ++ " at line " ++ Nat.repr line ++ ", column " ++ Nat.repr column ++ ": " ++ cause

/-- The full wording of a failure to cut tokens. -/
def Located.lexMessage (fault : Located LexFault) : String :=
  placed "Lexer error" fault.line fault.column fault.cause.message

/-- The full wording of a failure to read a stylesheet or a value. -/
def Located.parseMessage (fault : Located ParseFault) : String :=
  placed "Parse error" fault.line fault.column fault.cause.message

/-- The full wording of a failed conversion. -/
def ConversionError.message : ConversionError → String
  | parse fault => fault.parseMessage
  | unsupported kind line => "Unsupported construct `" ++ kind ++ "` at line " ++ Nat.repr line
  | malformed shape line => "Malformed tree at line " ++ Nat.repr line ++ ": " ++ shape.message
  | unknownDialect name => "Unknown target dialect '" ++ name ++ "' (expected 'scss')"

/-- The wording of a warning. -/
def Warning.message (w : Warning) : String :=
  "Skipping unsupported construct `" ++ w.kind ++ "` at line " ++ Nat.repr w.line

end StylusToScss
