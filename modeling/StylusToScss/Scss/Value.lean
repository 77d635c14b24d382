import StylusToScss.Binary64.Text
import StylusToScss.Fault
import StylusToScss.Scss.Names
import StylusToScss.Text.Alphabetic
import StylusToScss.Tree.Basic

/-!
# Writing values

The text of a value depends on the names known, on whether it stands in a definition, and on what is
done with unsupported constructs; writing it changes none of them. A construct that is left out
writes nothing and gives a warning.

* `Node.value` writes a node as part of a value.
* `View.resolve` writes a name: a looked-up property, an interpolation, a variable, or itself.
* `loopItem` writes an item of a loop's source, where a bare name is a variable.
-/

namespace StylusToScss

/-- What to do with a construct that has no counterpart: fail, or leave it out with a warning. -/
inductive Policy where
  | strict
  | lenient
  deriving DecidableEq, Repr

/-- What the text of a value depends on. -/
structure View where
  names : Names
  inDefinition : Bool
  policy : Policy

/-- A text with the warnings that writing it gave. -/
structure Fragment where
  text : String
  warnings : List Warning
  deriving DecidableEq, Repr

namespace Fragment

/-- A text without a warning. -/
def plain (text : String) : Fragment := ⟨text, []⟩

/-- The fragment with another text. -/
def map (fragment : Fragment) (f : String → String) : Fragment :=
  ⟨f fragment.text, fragment.warnings⟩

/-- Fragments with a separator between their texts. -/
def join (separator : String) (fragments : List Fragment) : Fragment :=
  ⟨String.intercalate separator (fragments.map (·.text)), fragments.flatMap (·.warnings)⟩

end Fragment

/-- A result of writing a value. -/
abbrev Written (α : Type) := Except ConversionError α

/-- Leave out a construct, or fail. -/
def Policy.unsupported (policy : Policy) (kind : String) (line : Nat) : Written Fragment :=
  match policy with
  | .strict => .error (.unsupported kind line)
  | .lenient => .ok ⟨"", [⟨kind, line⟩]⟩

/-- The failure of a node that cannot be part of a value. -/
def misplacedInValue (node : Node) : Written Fragment :=
  .error (.malformed (.notValue node.kind) node.line)

/-- A text in parentheses. -/
def parenthesize (text : String) : String := "(" ++ text ++ ")"

/-- How an operator is spelled in the output. -/
def outputOperator (op : String) : String :=
  match op with
  | "&&" => "and"
  | "||" => "or"
  | "!" => "not"
  | "is" => "=="
  | "isnt" => "!="
  | "is not" => "!="
  | op => op

/-- A literal between its quotes. -/
def Literal.text (literal : Literal) : String :=
  match literal.quote with
  | some quote => String.singleton quote ++ literal.value ++ String.singleton quote
  | none => literal.value

/-- A number with its unit. -/
def measureText (value : Binary64) (unit : Option String) : String :=
  value.formatNumber ++ unit.getD ""

/-- Whether an operand needs parentheses behind an operator: a binary operation, or a sequence of
several values that has none of its own. -/
def isCompound : Node → Bool
  | .binary _ _ _ _ => true
  | .expression ⟨nodes, _, parenthesized, _⟩ => !parenthesized && 1 < nodes.length
  | _ => false

/-- An operator before its operand. A word is set off by a blank. -/
def unaryText (op operand : String) : String :=
  let spelled := outputOperator op
  if spelled.toList.all Text.isAlphabetic then spelled ++ " " ++ operand else spelled ++ operand

/-- A name in a value. -/
def View.resolve (view : View) (name : String) (interpolated lookup : Bool) : String :=
  match if lookup then view.names.property? name else none with
  | some value => value
  | none =>
    if interpolated then "#\x7b" ++ reference name ++ "\x7d"
    else if name.toList.head? = some '$' ∨ view.names.isVariable name then reference name
    else name

mutual

/-- A node as part of a value. -/
def Node.value (view : View) : Node → Written Fragment
  | .expression e => e.value view
  | .ident name interpolated lookup _ => .ok (.plain (view.resolve name interpolated lookup))
  | .binding name value _ _ _ => do
    return (← value.value view).map fun text => reference name ++ ": " ++ text
  | .call name ⟨nodes, _⟩ _ => do
    return (Fragment.join ", " (← argumentValues view nodes)).map fun text =>
      name ++ parenthesize text
  | .arguments ⟨nodes, _⟩ => do return .join ", " (← argumentValues view nodes)
  | .params ⟨nodes, _⟩ => do return .join ", " (← argumentValues view nodes)
  | .binary op left right _ => do
    return .join (" " ++ outputOperator op ++ " ") [← left.value view, ← right.value view]
  | .unary op operand _ => do
    return (← operand.value view).map fun text =>
      unaryText op (if isCompound operand then parenthesize text else text)
  | .literal l => .ok (.plain l.text)
  | .measure value unit _ => .ok (.plain (measureText value unit))
  | .boolean value _ => .ok (.plain (if value then "true" else "false"))
  | .color raw _ => .ok (.plain raw)
  | .unsupported kind line => view.policy.unsupported kind line
  | .importRule path line => misplacedInValue (.importRule path line)
  | .group selectors b => misplacedInValue (.group selectors b)
  | .selector s => misplacedInValue (.selector s)
  | .block b => misplacedInValue (.block b)
  | .property segments value line => misplacedInValue (.property segments value line)
  | .conditional condition b alternatives line =>
    misplacedInValue (.conditional condition b alternatives line)
  | .loop item key source b line => misplacedInValue (.loop item key source b line)
  | .definition name params b line => misplacedInValue (.definition name params b line)

/-- The nodes of an expression, separated by commas or blanks. -/
def Expression.value (view : View) : Expression → Written Fragment
  | ⟨nodes, isList, parenthesized, _⟩ => do
    let whole := Fragment.join (if isList then ", " else " ") (← values view nodes)
    return if parenthesized then whole.map parenthesize else whole

/-- The nodes of a list, each as a value. -/
def values (view : View) : List Node → Written (List Fragment)
  | [] => .ok []
  | node :: rest => do
    let first ← node.value view
    return first :: (← values view rest)

/-- The nodes of a list, each as an argument. Inside a definition a bare name is a variable. -/
def argumentValues (view : View) : List Node → Written (List Fragment)
  | [] => .ok []
  | .ident name false false _ :: rest => do
    let text := if view.inDefinition then reference name else view.resolve name false false
    return .plain text :: (← argumentValues view rest)
  | node :: rest => do
    let first ← node.value view
    return first :: (← argumentValues view rest)

end

/-- An item of a loop's source: a bare name is a variable, also where it is all of an expression
without parentheses. -/
def loopItem (view : View) : Node → Written Fragment
  | .ident name false false _ => .ok (.plain (reference name))
  | .expression ⟨[node], _, false, _⟩ => loopItem view node
  | node => node.value view

/-- Segments of a selector or of a property name, one behind the other. -/
def segmentsValue (view : View) (segments : List Node) : Written Fragment := do
  return .join "" (← values view segments)

end StylusToScss
