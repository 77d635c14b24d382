import StylusToScss.Binary64.Basic

/-!
# The tree of a stylesheet

A `Stylesheet` is a list of nodes. Statements and values are nodes of one type, because trees also
come from outside as data: where a node of the wrong kind stands is found out while writing. Each
node knows the line of the source it starts on.

* `Node.kind` names the kind of a node, `Node.line` is its line.
* `Expression.single?` is the only node of an expression that has one.
-/

namespace StylusToScss

/-- A piece of raw text, which a quote character may enclose. -/
structure Literal where
  value : String
  quote : Option Char
  line : Nat
  deriving DecidableEq, Repr

mutual

/-- A node of the tree. -/
inductive Node where
  /-- An import of the path that the pieces make up. -/
  | importRule (path : List Literal) (line : Nat)
  /-- Selectors that share a block. -/
  | group (selectors : List Selector) (block : Block)
  | selector (selector : Selector)
  | block (block : Block)
  /-- A property: the segments of its name, and its value. -/
  | property (segments : List Node) (value : Expression) (line : Nat)
  /-- A name. It may be interpolated into a text, or look up an earlier property. -/
  | ident (name : String) (interpolated lookup : Bool) (line : Nat)
  /-- A name with a value: an assignment, a keyword argument or a parameter with a default. -/
  | binding (name : String) (value : Node) (interpolated lookup : Bool) (line : Nat)
  | expression (expression : Expression)
  | call (name : String) (arguments : Arguments) (line : Nat)
  | arguments (arguments : Arguments)
  | params (params : Arguments)
  | binary (op : String) (left right : Node) (line : Nat)
  | unary (op : String) (operand : Node) (line : Nat)
  /-- A conditional with its alternatives: further conditionals, or a block at the end. -/
  | conditional (condition : Node) (block : Block) (alternatives : List Node) (line : Nat)
  /-- A loop that binds an item, and perhaps its key, of a source. -/
  | loop (item : String) (key : Option String) (source : Expression) (block : Block) (line : Nat)
  | literal (literal : Literal)
  /-- A number with an optional unit. -/
  | measure (value : Binary64) (unit : Option String) (line : Nat)
  | boolean (value : Bool) (line : Nat)
  | color (raw : String) (line : Nat)
  /-- A mixin or a function. -/
  | definition (name : String) (params : Arguments) (block : Block) (line : Nat)
  /-- A construct that has no counterpart in the output. -/
  | unsupported (kind : String) (line : Nat)

/-- A selector: literal text and interpolated names. -/
structure Selector where
  segments : List Node
  line : Nat

/-- An indented body. -/
structure Block where
  nodes : List Node
  line : Nat

/-- A sequence of values, separated by commas if it is a list. -/
structure Expression where
  nodes : List Node
  isList : Bool
  parenthesized : Bool
  line : Nat

/-- The arguments of a call, or the parameters of a definition. -/
structure Arguments where
  nodes : List Node
  line : Nat

end

/-- A whole stylesheet. -/
structure Stylesheet where
  nodes : List Node

/-- The name of the kind of a node. -/
def Node.kind : Node → String
  | .importRule .. => "Import"
  | .group .. => "Group"
  | .selector .. => "Selector"
  | .block .. => "Block"
  | .property .. => "Property"
  | .ident .. => "Ident"
  | .binding .. => "Ident"
  | .expression .. => "Expression"
  | .call .. => "Call"
  | .arguments .. => "Arguments"
  | .params .. => "Params"
  | .binary .. => "BinOp"
  | .unary .. => "UnaryOp"
  | .conditional .. => "If"
  | .loop .. => "Each"
  | .literal .. => "Literal"
  | .measure .. => "Unit"
  | .boolean .. => "Boolean"
  | .color .. => "RGBA"
  | .definition .. => "Function"
  | .unsupported .. => "Unsupported"

/-- The line of the first selector of a group, or zero. -/
def groupLine : List Selector → Nat
  | [] => 0
  | first :: _ => first.line

/-- The line that a node starts on. -/
def Node.line : Node → Nat
  | .importRule _ line => line
  | .group selectors _ => groupLine selectors
  | .selector s => s.line
  | .block b => b.line
  | .property _ _ line => line
  | .ident _ _ _ line => line
  | .binding _ _ _ _ line => line
  | .expression e => e.line
  | .call _ _ line => line
  | .arguments a => a.line
  | .params p => p.line
  | .binary _ _ _ line => line
  | .unary _ _ line => line
  | .conditional _ _ _ line => line
  | .loop _ _ _ _ line => line
  | .literal l => l.line
  | .measure _ _ line => line
  | .boolean _ line => line
  | .color _ line => line
  | .definition _ _ _ line => line
  | .unsupported _ line => line

/-- The only node of an expression of one node. -/
def Expression.single? (expression : Expression) : Option Node :=
  match expression.nodes with
  | [node] => some node
  | _ => none

/-- A sequence of values separated by blanks. -/
def Expression.sequence (nodes : List Node) (line : Nat) : Expression := ⟨nodes, false, false, line⟩

/-- A name without a mark. -/
def Node.name (name : String) (line : Nat) : Node := .ident name false false line

/-- A name with a value and without a mark. -/
def Node.bound (name : String) (value : Node) (line : Nat) : Node :=
  .binding name value false false line

/-- A literal without quotes. -/
def Node.plain (value : String) (line : Nat) : Node := .literal ⟨value, none, line⟩

end StylusToScss
