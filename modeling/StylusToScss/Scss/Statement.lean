import StylusToScss.Scss.Layout
import StylusToScss.Scss.Value

/-!
# Writing statements

Statements are written in one walk over the tree. The walk carries the names known and the warnings
given so far; what a statement becomes also depends on the definition around it. It gives marks,
which know nothing of lines and indentation but where statements begin.

* `Node.statement` writes a node as a statement, `Block.marks` the body between braces.
* `setsProperty`: a definition whose body sets a property is a mixin, any other one a function.
-/

namespace StylusToScss

/-- The two forms of a definition. -/
inductive DefinitionForm where
  | mixin
  | function
  deriving DecidableEq, Repr

/-- What a statement becomes depends on the policy and on the nearest definition around it. -/
structure Surrounding where
  policy : Policy
  within : Option DefinitionForm
  deriving DecidableEq, Repr

/-- How far the walk has come: the names known and the warnings given. -/
structure Progress where
  names : Names
  warnings : List Warning
  deriving DecidableEq, Repr

/-- The start of the walk. -/
def Progress.start : Progress := ⟨.none, []⟩

/-- A step of the walk. What it has come to is known also where it fails. -/
abbrev Walk (α : Type) := ExceptT ConversionError (StateM Progress) α

namespace Walk

/-- Fail because the tree lacks a shape. -/
def malformed {α : Type} (shape : ShapeFault) (line : Nat) : Walk α :=
  throw (.malformed shape line)

/-- Change the names known. -/
def rename (f : Names → Names) : Walk Unit :=
  modify fun progress => { progress with names := f progress.names }

/-- Bind a variable. -/
def bind (name : String) : Walk Unit := rename (·.bind name)

/-- The text of a value at this point of the walk. -/
def value (around : Surrounding) (write : View → Written Fragment) : Walk String := do
  let progress ← get
  match write ⟨progress.names, around.within.isSome, around.policy⟩ with
  | .ok fragment =>
    set { progress with warnings := progress.warnings ++ fragment.warnings }
    return fragment.text
  | .error e => throw e

end Walk

/-! ## Statements without a block -/

/-- The first quote among the pieces of an import's path. -/
def pathQuote (path : List Literal) : String :=
  ((path.findSome? (·.quote)).map String.singleton).getD ""

/-- An import. Its pieces are one path, in the first quote found among them. -/
def importMarks (path : List Literal) (line : Nat) : Walk (List Mark) :=
  if path.isEmpty then .malformed .importWithoutPath line
  else
    let text := pathQuote path ++ String.join (path.map (·.value)) ++ pathQuote path
    return [.statement line, .text ("@import " ++ text ++ ";")]

/-- The name and the value of a property that binds a variable: its value is a name with an
expression. -/
def shorthand? (value : Expression) : Option (String × Expression) :=
  match value with
  | ⟨[.binding name (.expression e) _ _ _], _, _, _⟩ => some (name, e)
  | _ => none

/-- A property. One whose value binds a variable is written as the variable and a use of it. -/
def propertyMarks (around : Surrounding) (segments : List Node) (value : Expression) (line : Nat) :
    Walk (List Mark) := do
  let property ← Walk.value around fun view => segmentsValue view segments
  match shorthand? value with
  | some (name, e) =>
    let text ← Walk.value around fun view => e.value view
    Walk.bind name
    Walk.rename (·.record property (reference name))
    return [.statement line, .text (reference name ++ ": " ++ text ++ ";"), .sameStatement,
      .text (property ++ ": " ++ reference name ++ ";")]
  | none =>
    let text ← Walk.value around fun view => value.value view
    Walk.rename (·.record property text)
    return [.statement line, .text (property ++ ": " ++ text ++ ";")]

/-- An assignment. -/
def assignmentMarks (around : Surrounding) (name : String) (value : Node) (line : Nat) :
    Walk (List Mark) := do
  let text ← Walk.value around fun view => value.value view
  Walk.bind name
  return [.statement line, .text (reference name ++ ": " ++ text ++ ";")]

/-- Whether a statement is a call, and so includes a mixin. -/
def isCall : Node → Bool
  | .call _ _ _ => true
  | .expression ⟨[.call _ _ _], _, false, _⟩ => true
  | _ => false

/-- The word before an expression that is a whole statement. -/
def expressionWord (around : Surrounding) (node : Node) : String :=
  if around.within = some .function then "@return "
  else if isCall node then "@include " else ""

/-- An expression that is a whole statement. -/
def expressionMarks (around : Surrounding) (node : Node) : Walk (List Mark) := do
  let text ← Walk.value around fun view => node.value view
  return [.statement node.line, .text (expressionWord around node ++ text ++ ";")]

/-- A construct that has no counterpart. -/
def unsupportedMarks (around : Surrounding) (kind : String) (line : Nat) : Walk (List Mark) := do
  let _ ← Walk.value around fun view => view.policy.unsupported kind line
  return []

/-- The failure of a node that is no statement. -/
def misplacedStatement (node : Node) : Walk (List Mark) :=
  .malformed (.notStatement node.kind) node.line

/-! ## The lines above a block -/

/-- The selectors of a group. -/
def selectorMarks (around : Surrounding) : List Selector → Walk (List Mark)
  | [] => return []
  | ⟨segments, line⟩ :: rest => do
    let text ← Walk.value around fun view => segmentsValue view segments
    return .selector line :: .text text :: (← selectorMarks around rest)

/-- The bounds of a range that is all of a loop's source, and the word between them. -/
def range? (source : Expression) : Option (Node × String × Node) :=
  match source.single? with
  | some (.binary ".." left right _) => some (left, "through", right)
  | some (.binary "..." left right _) => some (left, "to", right)
  | _ => none

/-- The line of a loop. A range has no key: one that is written goes by the policy. -/
def loopHead (around : Surrounding) (item : String) (key : Option String) (source : Expression)
    (line : Nat) : Walk String := do
  Walk.bind item
  match range? source with
  | some (left, word, right) =>
    if key.isSome then
      let _ ← Walk.value around fun view => view.policy.unsupported "range loop key" line
    let first ← Walk.value around fun view => left.value view
    let last ← Walk.value around fun view => right.value view
    return "@for " ++ reference item ++ " from " ++ first ++ " " ++ word ++ " " ++ last
  | none =>
    let names ← match key with
      | some key => do
        Walk.bind key
        pure (reference item ++ ", " ++ reference key)
      | none => pure (reference item)
    let items ← Walk.value around fun view => do
      return .join ", " (← source.nodes.mapM (loopItem view))
    return "@each " ++ names ++ " in " ++ items

/-- The parameters of a definition, each bound before its default is written. -/
def parameterTexts (around : Surrounding) : List Node → Walk (List String)
  | [] => return []
  | .ident name _ _ _ :: rest => do
    Walk.bind (withoutDots name)
    return reference name :: (← parameterTexts around rest)
  | .binding name value _ _ _ :: rest => do
    Walk.bind (withoutDots name)
    let text ← Walk.value around fun view => value.value view
    return (reference name ++ ": " ++ text) :: (← parameterTexts around rest)
  | node :: _ => .malformed (.notParameter node.kind) node.line

mutual

/-- Whether a node sets a property, at any depth of blocks but not in a definition of its own. -/
def Node.setsProperty : Node → Bool
  | .property _ _ _ => true
  | .block ⟨nodes, _⟩ => setsProperty nodes
  | .group _ ⟨nodes, _⟩ => setsProperty nodes
  | .loop _ _ _ ⟨nodes, _⟩ _ => setsProperty nodes
  | .conditional _ ⟨nodes, _⟩ alternatives _ => setsProperty nodes || setsProperty alternatives
  | _ => false

/-- Whether one of the nodes sets a property. -/
def setsProperty : List Node → Bool
  | [] => false
  | node :: rest => node.setsProperty || setsProperty rest

end

/-- The form of a definition with this body. -/
def formOf (block : Block) : DefinitionForm :=
  if setsProperty block.nodes then .mixin else .function

/-- The word that starts a definition. -/
def DefinitionForm.word : DefinitionForm → String
  | mixin => "@mixin "
  | function => "@function "

/-- What stands within a definition of this form. -/
def Surrounding.inside (around : Surrounding) (form : DefinitionForm) : Surrounding :=
  { around with within := some form }

/-- A definition. Its parameters stand within it, and so does its body, which the last argument
writes. -/
def definitionMarks (around : Surrounding) (name : String) (params : Arguments) (line : Nat)
    (form : DefinitionForm) (body : Walk (List Mark)) : Walk (List Mark) := do
  let texts ← parameterTexts (around.inside form) params.nodes
  let head := form.word ++ name ++ parenthesize (String.intercalate ", " texts)
  return .statement line :: .text head :: (← body)

/-! ## Every statement -/

mutual

/-- A node as a statement. -/
def Node.statement (around : Surrounding) : Node → Walk (List Mark)
  | .importRule path line => importMarks path line
  | .group [] b => .malformed .groupWithoutSelectors b.line
  | .group (⟨segments, line⟩ :: rest) b => do
    let first ← Walk.value around fun view => segmentsValue view segments
    let more ← selectorMarks around rest
    return .statement line :: .text first :: more ++ (← b.marks around)
  | .property segments value line => propertyMarks around segments value line
  | .ident name interpolated lookup line =>
    expressionMarks around (.ident name interpolated lookup line)
  | .binding _ (.definition name params b line) _ _ _ =>
    definitionMarks around name params line (formOf b) (b.marks (around.inside (formOf b)))
  | .binding name value _ _ line => assignmentMarks around name value line
  | .conditional condition b alternatives line => do
    let text ← Walk.value around fun view => condition.value view
    let body ← b.marks around
    return .statement line :: .text ("@if " ++ text) :: body ++
      (← alternativeMarks around alternatives)
  | .loop item key source b line => do
    let head ← loopHead around item key source line
    return .statement line :: .text head :: (← b.marks around)
  | .definition name params b line =>
    definitionMarks around name params line (formOf b) (b.marks (around.inside (formOf b)))
  | .unsupported kind line => unsupportedMarks around kind line
  | .expression e => expressionMarks around (.expression e)
  | .call name arguments line => expressionMarks around (.call name arguments line)
  | .binary op left right line => expressionMarks around (.binary op left right line)
  | .unary op operand line => expressionMarks around (.unary op operand line)
  | .literal l => expressionMarks around (.literal l)
  | .measure value unit line => expressionMarks around (.measure value unit line)
  | .boolean value line => expressionMarks around (.boolean value line)
  | .color raw line => expressionMarks around (.color raw line)
  | .selector s => misplacedStatement (.selector s)
  | .block b => misplacedStatement (.block b)
  | .arguments a => misplacedStatement (.arguments a)
  | .params p => misplacedStatement (.params p)

/-- The alternatives of a conditional. Those of an alternative follow it. -/
def alternativeMarks (around : Surrounding) : List Node → Walk (List Mark)
  | [] => return []
  | .conditional condition b alternatives line :: rest => do
    let text ← Walk.value around fun view => condition.value view
    let body ← b.marks around
    let inner ← alternativeMarks around alternatives
    return .clause line :: .text (" @else if " ++ text) :: body ++ inner ++
      (← alternativeMarks around rest)
  | .block b :: rest => do
    let body ← b.marks around
    return .clause b.line :: .text " @else" :: body ++ (← alternativeMarks around rest)
  | node :: _ => .malformed (.notAlternative node.kind) node.line

/-- A block between braces. -/
def Block.marks (around : Surrounding) : Block → Walk (List Mark)
  | ⟨nodes, _⟩ => do return .opening :: (← statements around nodes) ++ [.closing]

/-- Statements one after the other. -/
def statements (around : Surrounding) : List Node → Walk (List Mark)
  | [] => return []
  | node :: rest => do
    let first ← node.statement around
    return first ++ (← statements around rest)

end

end StylusToScss
