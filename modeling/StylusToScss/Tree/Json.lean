import StylusToScss.Json
import StylusToScss.Tree.Basic

/-!
# Trees as JSON

A node is an object whose field `__type` names its kind. Where the kind is fixed (a block, an
expression, arguments, a selector, a literal) the object has no such field. Writing puts every
field; reading fills in the ones that may be missing and passes over unknown ones.

* `Node.toJson` and `Stylesheet.toJson` write, `Node.ofJson?` and `Stylesheet.ofJson?` read.
-/

namespace StylusToScss

/-! ## Writing -/

/-- The fields of a literal. -/
def Literal.fields (literal : Literal) : Json.Fields := [
  ("val", .text literal.value),
  ("quote", Json.ofOptionalText (literal.quote.map String.singleton)),
  ("lineno", .integer literal.line)]

/-- A literal where only a literal can stand. -/
def Literal.toJson (literal : Literal) : Json := .object literal.fields

/-- An object with its kind before the other fields. -/
def ofKind (kind : String) (fields : Json.Fields) : Json :=
  .object (("__type", .text kind) :: fields)

mutual

/-- The fields of a node apart from its kind. -/
def Node.fields : Node → Json.Fields
  | .importRule path line =>
    [("path", .array (path.map Literal.toJson)), ("lineno", .integer line)]
  | .group selectors b =>
    [("nodes", .array (selectorsToJson selectors)), ("block", .object b.fields)]
  | .selector s => s.fields
  | .block b => b.fields
  | .property segments value line =>
    [("segments", .array (nodesToJson segments)), ("expr", .object value.fields),
      ("lineno", .integer line)]
  | .ident name interpolated lookup line =>
    [("name", .text name), ("val", .null), ("mixin", .bool interpolated),
      ("property", .bool lookup), ("lineno", .integer line)]
  | .binding name value interpolated lookup line =>
    [("name", .text name), ("val", ofKind value.kind value.fields), ("mixin", .bool interpolated),
      ("property", .bool lookup), ("lineno", .integer line)]
  | .expression e => e.fields
  | .call name a line =>
    [("name", .text name), ("args", .object a.fields), ("lineno", .integer line)]
  | .arguments a => a.fields
  | .params p => p.fields
  | .binary op left right line =>
    [("op", .text op), ("left", ofKind left.kind left.fields),
      ("right", ofKind right.kind right.fields), ("lineno", .integer line)]
  | .unary op operand line =>
    [("op", .text op), ("expr", ofKind operand.kind operand.fields), ("lineno", .integer line)]
  | .conditional condition b alternatives line =>
    [("cond", ofKind condition.kind condition.fields), ("block", .object b.fields),
      ("elses", .array (nodesToJson alternatives)), ("lineno", .integer line)]
  | .loop item key source b line =>
    [("val", .text item), ("key", Json.ofOptionalText key), ("expr", .object source.fields),
      ("block", .object b.fields), ("lineno", .integer line)]
  | .literal l => l.fields
  | .measure value unit line =>
    [("val", Json.ofNumber value), ("type", Json.ofOptionalText unit), ("lineno", .integer line)]
  | .boolean value line => [("val", .bool value), ("lineno", .integer line)]
  | .color raw line => [("raw", .text raw), ("lineno", .integer line)]
  | .definition name p b line =>
    [("name", .text name), ("params", .object p.fields), ("block", .object b.fields),
      ("lineno", .integer line)]
  | .unsupported kind line => [("kind", .text kind), ("lineno", .integer line)]

/-- The nodes of a list, each with its kind. -/
def nodesToJson : List Node → List Json
  | [] => []
  | node :: rest => ofKind node.kind node.fields :: nodesToJson rest

/-- The fields of a selector. -/
def Selector.fields : Selector → Json.Fields
  | ⟨segments, line⟩ => [("segments", .array (nodesToJson segments)), ("lineno", .integer line)]

/-- The selectors of a group. -/
def selectorsToJson : List Selector → List Json
  | [] => []
  | selector :: rest => .object selector.fields :: selectorsToJson rest

/-- The fields of a block. -/
def Block.fields : Block → Json.Fields
  | ⟨nodes, line⟩ => [("nodes", .array (nodesToJson nodes)), ("lineno", .integer line)]

/-- The fields of an expression. -/
def Expression.fields : Expression → Json.Fields
  | ⟨nodes, isList, parenthesized, line⟩ =>
    [("nodes", .array (nodesToJson nodes)), ("isList", .bool isList),
      ("parenthesized", .bool parenthesized), ("lineno", .integer line)]

/-- The fields of arguments. -/
def Arguments.fields : Arguments → Json.Fields
  | ⟨nodes, line⟩ => [("nodes", .array (nodesToJson nodes)), ("lineno", .integer line)]

end

/-- A node as JSON. -/
def Node.toJson (node : Node) : Json := ofKind node.kind node.fields

/-- A stylesheet as JSON. -/
def Stylesheet.toJson (sheet : Stylesheet) : Json :=
  .object [("nodes", .array (nodesToJson sheet.nodes))]

/-! ## Reading -/

/-- The literal of an object's fields. -/
def Literal.ofFields? (fields : Json.Fields) : Option Literal := do
  return ⟨← Json.text? fields "val", ← Json.optionalChar? fields "quote", ← Json.line? fields⟩

/-- The literal that an object is. -/
def Literal.ofJson? : Json → Option Literal
  | .object fields => Literal.ofFields? fields
  | _ => none

/-- The literals of an array. -/
def literalsOfJson? : Json → Option (List Literal)
  | .array items => items.mapM Literal.ofJson?
  | _ => none

mutual

/-- The node that an object with a kind is. -/
def Node.ofJson? (json : Json) : Option Node :=
  match json with
  | .object fields => do Node.ofFields? (← Json.text? fields "__type") fields
  | _ => none
termination_by 3 * sizeOf json + 0

/-- The node of this kind with the fields of an object. -/
def Node.ofFields? (kind : String) (fields : Json.Fields) : Option Node :=
  match kind with
  | "Import" => do
    let path ← Json.find? fields "path"
    return .importRule (← literalsOfJson? path.1) (← Json.line? fields)
  | "Group" => do
    let selectors ← Json.find? fields "nodes"
    let block ← Json.find? fields "block"
    return .group (← selectorsOfJson? selectors.1) (← Block.ofJson? block.1)
  | "Selector" => do return .selector (← Selector.ofFields? fields)
  | "Block" => do return .block (← Block.ofFields? fields)
  | "Property" => do
    let segments ← Json.find? fields "segments"
    let value ← Json.find? fields "expr"
    return .property (← nodesOfJson? segments.1) (← Expression.ofJson? value.1)
      (← Json.line? fields)
  | "Ident" => do
    let name ← Json.text? fields "name"
    let interpolated ← Json.flag? fields "mixin"
    let lookup ← Json.flag? fields "property"
    let line ← Json.line? fields
    match Json.find? fields "val" with
    | none => return .ident name interpolated lookup line
    | some ⟨.null, _⟩ => return .ident name interpolated lookup line
    | some value => return .binding name (← Node.ofJson? value.1) interpolated lookup line
  | "Expression" => do return .expression (← Expression.ofFields? fields)
  | "Call" => do
    let arguments ← Json.find? fields "args"
    return .call (← Json.text? fields "name") (← Arguments.ofJson? arguments.1)
      (← Json.line? fields)
  | "Arguments" => do return .arguments (← Arguments.ofFields? fields)
  | "Params" => do return .params (← Arguments.ofFields? fields)
  | "BinOp" => do
    let left ← Json.find? fields "left"
    let right ← Json.find? fields "right"
    return .binary (← Json.text? fields "op") (← Node.ofJson? left.1) (← Node.ofJson? right.1)
      (← Json.line? fields)
  | "UnaryOp" => do
    let operand ← Json.find? fields "expr"
    return .unary (← Json.text? fields "op") (← Node.ofJson? operand.1) (← Json.line? fields)
  | "If" => do
    let condition ← Json.find? fields "cond"
    let block ← Json.find? fields "block"
    let alternatives ← match Json.find? fields "elses" with
      | none => some []
      | some alternatives => nodesOfJson? alternatives.1
    return .conditional (← Node.ofJson? condition.1) (← Block.ofJson? block.1) alternatives
      (← Json.line? fields)
  | "Each" => do
    let source ← Json.find? fields "expr"
    let block ← Json.find? fields "block"
    return .loop (← Json.text? fields "val") (← Json.optionalText? fields "key")
      (← Expression.ofJson? source.1) (← Block.ofJson? block.1) (← Json.line? fields)
  | "Literal" => do return .literal (← Literal.ofFields? fields)
  | "Unit" => do
    return .measure (← Json.number? fields "val") (← Json.optionalText? fields "type")
      (← Json.line? fields)
  | "Boolean" => do return .boolean (← Json.bool? fields "val") (← Json.line? fields)
  | "RGBA" => do return .color (← Json.text? fields "raw") (← Json.line? fields)
  | "Function" => do
    let params ← Json.find? fields "params"
    let block ← Json.find? fields "block"
    return .definition (← Json.text? fields "name") (← Arguments.ofJson? params.1)
      (← Block.ofJson? block.1) (← Json.line? fields)
  | "Unsupported" => do return .unsupported (← Json.text? fields "kind") (← Json.line? fields)
  | _ => none
termination_by 3 * sizeOf fields + 2

/-- The nodes of an array. -/
def nodesOfJson? (json : Json) : Option (List Node) :=
  match json with
  | .array items => nodesOfItems? items
  | _ => none
termination_by 3 * sizeOf json + 0

/-- The nodes that the items of an array are. -/
def nodesOfItems? (items : List Json) : Option (List Node) :=
  match items with
  | [] => some []
  | item :: rest => do return (← Node.ofJson? item) :: (← nodesOfItems? rest)
termination_by 3 * sizeOf items + 0

/-- The selector of an object's fields. -/
def Selector.ofFields? (fields : Json.Fields) : Option Selector := do
  let segments ← Json.find? fields "segments"
  return ⟨← nodesOfJson? segments.1, ← Json.line? fields⟩
termination_by 3 * sizeOf fields + 1

/-- The selectors of an array. -/
def selectorsOfJson? (json : Json) : Option (List Selector) :=
  match json with
  | .array items => selectorsOfItems? items
  | _ => none
termination_by 3 * sizeOf json + 0

/-- The selectors that the items of an array are. -/
def selectorsOfItems? (items : List Json) : Option (List Selector) :=
  match items with
  | [] => some []
  | .object fields :: rest => do
    return (← Selector.ofFields? fields) :: (← selectorsOfItems? rest)
  | _ => none
termination_by 3 * sizeOf items + 0

/-- The block that an object is. -/
def Block.ofJson? (json : Json) : Option Block :=
  match json with
  | .object fields => Block.ofFields? fields
  | _ => none
termination_by 3 * sizeOf json + 0

/-- The block of an object's fields. -/
def Block.ofFields? (fields : Json.Fields) : Option Block := do
  let nodes ← Json.find? fields "nodes"
  return ⟨← nodesOfJson? nodes.1, ← Json.line? fields⟩
termination_by 3 * sizeOf fields + 1

/-- The expression that an object is. -/
def Expression.ofJson? (json : Json) : Option Expression :=
  match json with
  | .object fields => Expression.ofFields? fields
  | _ => none
termination_by 3 * sizeOf json + 0

/-- The expression of an object's fields. -/
def Expression.ofFields? (fields : Json.Fields) : Option Expression := do
  let nodes ← Json.find? fields "nodes"
  return ⟨← nodesOfJson? nodes.1, ← Json.flag? fields "isList",
    ← Json.flag? fields "parenthesized", ← Json.line? fields⟩
termination_by 3 * sizeOf fields + 1

/-- The arguments that an object is. -/
def Arguments.ofJson? (json : Json) : Option Arguments :=
  match json with
  | .object fields => Arguments.ofFields? fields
  | _ => none
termination_by 3 * sizeOf json + 0

/-- The arguments of an object's fields. -/
def Arguments.ofFields? (fields : Json.Fields) : Option Arguments := do
  let nodes ← Json.find? fields "nodes"
  return ⟨← nodesOfJson? nodes.1, ← Json.line? fields⟩
termination_by 3 * sizeOf fields + 1

end

/-- The stylesheet that an object is. -/
def Stylesheet.ofJson? : Json → Option Stylesheet
  | .object fields => do
    let nodes ← Json.find? fields "nodes"
    return ⟨← nodesOfJson? nodes.1⟩
  | _ => none

end StylusToScss
