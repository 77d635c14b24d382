import StylusToScss.Scss.Statement

/-!
# The emitter

Writing as one machine that changes its state in place. The state is the layout that the text has
come to, the names known, and what the definition around the current statement asks for. A renderer
gives its text directly, and may fail at any point of its work: what it has changed so far stays
changed, so whoever opens a block or enters a definition closes and leaves it on the way out of a
failure too.

* `Emit.visit` renders a node as a statement, `Emit.value` as part of a value.
* `Emit.enclosed` and `Emit.definition` look at the outcome of a body (`Emit.observe`), put back
  what they changed, and go on or fail with it (`Emit.release`).
* `Stylesheet.emit` renders a whole tree.
-/

namespace StylusToScss

/-- The state of writing: the layout, the names known, whether the current statement stands in a
definition, the word before an expression that is a statement, and the policy, which never
changes. -/
structure Emitter where
  layout : Layout
  names : Names
  inDefinition : Bool
  returnWord : Option String
  policy : Policy

namespace Emitter

/-- Before the first statement. -/
def start (policy : Policy) : Emitter := ⟨.start, .none, false, none, policy⟩

/-- What the text of a value depends on. -/
def view (emitter : Emitter) : View := ⟨emitter.names, emitter.inDefinition, emitter.policy⟩

end Emitter

/-- The word before an expression that is a statement in a definition of this form. -/
def DefinitionForm.returnWord : DefinitionForm → Option String
  | mixin => none
  | function => some "@return "

/-- The state within a definition of this form that starts on this line. -/
def Emitter.entering (emitter : Emitter) (line : Nat) (form : DefinitionForm) : Emitter :=
  { emitter with
    layout := (Mark.statement line).after emitter.layout
    inDefinition := true
    returnWord := form.returnWord }

/-- A step of the emitter. A step that fails leaves a state behind as well. -/
abbrev Emit (α : Type) := ExceptT ConversionError (StateM Emitter) α

namespace Emit

variable {α β : Type}

/-- A step from a state on: its outcome and the state behind it. -/
def runFrom (step : Emit α) (emitter : Emitter) : Except ConversionError α × Emitter :=
  step.run.run emitter

theorem runFrom_bind (step : Emit α) (next : α → Emit β) (emitter : Emitter) :
    runFrom (step >>= next) emitter =
      match runFrom step emitter with
      | (.ok a, after) => runFrom (next a) after
      | (.error e, after) => (.error e, after) := by
  show (ExceptT.bindCont next (runFrom step emitter).1) (runFrom step emitter).2 = _
  obtain ⟨_ | _, _⟩ := runFrom step emitter <;> rfl

theorem runFrom_get (next : Emitter → Emit α) (emitter : Emitter) :
    runFrom (get >>= next) emitter = runFrom (next emitter) emitter := rfl

/-- Fail because the tree lacks a shape. -/
def malformed (shape : ShapeFault) (line : Nat) : Emit α := throw (.malformed shape line)

/-- What the layout adds at a place, which moves it on. -/
def place (mark : Mark) : Emit String := do
  let emitter ← get
  set { emitter with layout := mark.after emitter.layout }
  return mark.written emitter.layout

theorem runFrom_place (mark : Mark) (emitter : Emitter) :
    runFrom (place mark) emitter =
      (.ok (mark.written emitter.layout), { emitter with layout := mark.after emitter.layout }) :=
  rfl

/-- Change the state. -/
def change (f : Emitter → Emitter) : Emit Unit := modify f

theorem runFrom_change (f : Emitter → Emitter) (emitter : Emitter) :
    runFrom (change f) emitter = (.ok (), f emitter) := rfl

/-- Change the names known. -/
def rename (f : Names → Names) : Emit Unit :=
  change fun emitter => { emitter with names := f emitter.names }

theorem runFrom_rename (f : Names → Names) (emitter : Emitter) :
    runFrom (rename f) emitter = (.ok (), { emitter with names := f emitter.names }) := rfl

/-- Take a step and look at its outcome. -/
def observe (step : Emit α) : Emit (Except ConversionError α) := ExceptT.mk (.ok <$> step.run)

theorem runFrom_observe (step : Emit α) (emitter : Emitter) :
    runFrom (observe step) emitter = (.ok (runFrom step emitter).1, (runFrom step emitter).2) := rfl

/-- Go on with an outcome, or fail with it. -/
def release (outcome : Except ConversionError α) : Emit α := ExceptT.mk (pure outcome)

theorem runFrom_release (outcome : Except ConversionError α) (emitter : Emitter) :
    runFrom (release outcome) emitter = (outcome, emitter) := rfl

/-- Leave out a construct, or fail. -/
def unsupported (kind : String) (line : Nat) : Emit String := do
  match (← get).policy with
  | .strict => throw (.unsupported kind line)
  | .lenient => return ""

/-! ## Values -/

/-- Render a node as an argument: inside a definition a bare name is a variable, and anything else
is rendered as a value, by the last argument. -/
def argument (inDefinition : Bool) (node : Node) (other : Emit String) : Emit String :=
  match node, inDefinition with
  | .ident name false false _, true => return reference name
  | _, _ => other

mutual

/-- Render a node as part of a value. -/
def value : Node → Emit String
  | .expression e => expression e
  | .ident name interpolated lookup _ => do
    return (← get).view.resolve name interpolated lookup
  | .binding name node _ _ _ => do
    let text ← value node
    return reference name ++ ": " ++ text
  | .call name ⟨nodes, _⟩ _ => do
    let texts ← arguments nodes
    return name ++ parenthesize (String.intercalate ", " texts)
  | .arguments ⟨nodes, _⟩ => do
    let texts ← arguments nodes
    return String.intercalate ", " texts
  | .params ⟨nodes, _⟩ => do
    let texts ← arguments nodes
    return String.intercalate ", " texts
  | .binary op left right _ => do
    let first ← value left
    let second ← value right
    return first ++ " " ++ outputOperator op ++ " " ++ second
  | .unary op operand _ => do
    let text ← value operand
    return unaryText op (if isCompound operand then parenthesize text else text)
  | .literal l => return l.text
  | .measure value unit _ => return measureText value unit
  | .boolean value _ => return if value then "true" else "false"
  | .color raw _ => return raw
  | .unsupported kind line => unsupported kind line
  | node => malformed (.notValue node.kind) node.line

/-- Render the nodes of an expression. -/
def expression : Expression → Emit String
  | ⟨nodes, isList, parenthesized, _⟩ => do
    let texts ← values nodes
    let text := String.intercalate (if isList then ", " else " ") texts
    return if parenthesized then parenthesize text else text

/-- Render the nodes of a list, each as a value. -/
def values : List Node → Emit (List String)
  | [] => return []
  | node :: rest => do
    let first ← value node
    return first :: (← values rest)

/-- Render the nodes of a list, each as an argument. -/
def arguments : List Node → Emit (List String)
  | [] => return []
  | node :: rest => do
    let emitter ← get
    let first ← argument emitter.inDefinition node (value node)
    return first :: (← arguments rest)

end

/-- Render an item of a loop's source. -/
def item : Node → Emit String
  | .ident name false false _ => return reference name
  | .expression ⟨[node], _, false, _⟩ => item node
  | node => value node

/-- Render the items of a loop's source. -/
def items : List Node → Emit (List String)
  | [] => return []
  | node :: rest => do
    let first ← item node
    return first :: (← items rest)

/-- Render the source of a loop. -/
def loopSource (nodes : List Node) : Emit String := do
  let texts ← items nodes
  return String.intercalate ", " texts

/-- Render the segments of a selector or of a property name. -/
def segments (nodes : List Node) : Emit String := do
  let texts ← values nodes
  return String.intercalate "" texts

/-! ## Statements without a block -/

/-- Render an import. -/
def importRule (path : List Literal) (line : Nat) : Emit String :=
  if path.isEmpty then malformed .importWithoutPath line
  else do
    let lead ← place (.statement line)
    let text := pathQuote path ++ String.join (path.map (·.value)) ++ pathQuote path
    return lead ++ "@import " ++ text ++ ";"

/-- Render a property. -/
def property (name : List Node) (node : Expression) (line : Nat) : Emit String := do
  let lead ← place (.statement line)
  let property ← segments name
  match shorthand? node with
  | some (declared, e) =>
    let text ← expression e
    rename (·.bind declared)
    rename (·.record property (reference declared))
    let indentation ← place .sameStatement
    return lead ++ reference declared ++ ": " ++ text ++ ";" ++ indentation ++ property ++ ": " ++
      reference declared ++ ";"
  | none =>
    let text ← expression node
    rename (·.record property text)
    return lead ++ property ++ ": " ++ text ++ ";"

/-- Render an assignment. -/
def assignment (name : String) (node : Node) (line : Nat) : Emit String := do
  let lead ← place (.statement line)
  let text ← value node
  rename (·.bind name)
  return lead ++ reference name ++ ": " ++ text ++ ";"

/-- Render an expression that is a whole statement. -/
def expressionStatement (node : Node) : Emit String := do
  let lead ← place (.statement node.line)
  let text ← value node
  let word := (← get).returnWord.getD (if isCall node then "@include " else "")
  return lead ++ word ++ text ++ ";"

/-! ## The lines above a block -/

/-- Render the selectors of a group behind the first one. -/
def selectors : List Selector → Emit String
  | [] => return ""
  | ⟨nodes, line⟩ :: rest => do
    let gap ← place (.selector line)
    let text ← segments nodes
    return gap ++ text ++ (← selectors rest)

/-- Render the line of a loop. -/
def loopHead (name : String) (key : Option String) (source : Expression) (line : Nat) :
    Emit String := do
  rename (·.bind name)
  match range? source with
  | some (left, word, right) =>
    if key.isSome then
      let _ ← unsupported "range loop key" line
    let first ← value left
    let last ← value right
    return "@for " ++ reference name ++ " from " ++ first ++ " " ++ word ++ " " ++ last
  | none =>
    let names ← match key with
      | some key => do
        rename (·.bind key)
        pure (reference name ++ ", " ++ reference key)
      | none => pure (reference name)
    let text ← loopSource source.nodes
    return "@each " ++ names ++ " in " ++ text

/-- Render the parameters of a definition. -/
def parameters : List Node → Emit (List String)
  | [] => return []
  | .ident name _ _ _ :: rest => do
    rename (·.bind (withoutDots name))
    return reference name :: (← parameters rest)
  | .binding name node _ _ _ :: rest => do
    rename (·.bind (withoutDots name))
    let text ← value node
    return (reference name ++ ": " ++ text) :: (← parameters rest)
  | node :: _ => malformed (.notParameter node.kind) node.line

/-! ## Blocks and definitions -/

/-- Render a body between braces, one level deeper. The level is left whatever becomes of the
body. -/
def enclosed (body : Emit String) : Emit String := do
  let opening ← place .opening
  let outcome ← observe body
  let closing ← place .closing
  return opening ++ (← release outcome) ++ closing

theorem runFrom_enclosed (body : Emit String) (emitter : Emitter) :
    runFrom (enclosed body) emitter =
      let inner := runFrom body { emitter with layout := Mark.opening.after emitter.layout }
      (inner.1.map fun text =>
          Mark.opening.written emitter.layout ++ text ++ Mark.closing.written inner.2.layout,
        { inner.2 with layout := Mark.closing.after inner.2.layout }) := by
  unfold enclosed
  rw [runFrom_bind, runFrom_place]
  simp only
  rw [runFrom_bind, runFrom_observe]
  simp only
  rw [runFrom_bind, runFrom_place]
  simp only
  rw [runFrom_bind, runFrom_release]
  cases (runFrom body { emitter with layout := Mark.opening.after emitter.layout }).1 <;> rfl

/-- Render the parameters and the body of a definition. -/
def interior (params : List Node) (block : Emit String) : Emit (List String × String) := do
  let texts ← parameters params
  let text ← block
  return (texts, text)

/-- Render a definition. What stands around it is put back whatever becomes of its interior. -/
def definition (name : String) (params : List Node) (line : Nat) (form : DefinitionForm)
    (block : Emit String) : Emit String := do
  let lead ← place (.statement line)
  let around ← get
  change fun emitter => { emitter with inDefinition := true, returnWord := form.returnWord }
  let outcome ← observe (interior params block)
  change fun emitter =>
    { emitter with inDefinition := around.inDefinition, returnWord := around.returnWord }
  let (texts, text) ← release outcome
  return lead ++ form.word ++ name ++ parenthesize (String.intercalate ", " texts) ++ text

theorem runFrom_definition (name : String) (params : List Node) (line : Nat)
    (form : DefinitionForm) (block : Emit String) (emitter : Emitter) :
    runFrom (definition name params line form block) emitter =
      let inner := runFrom (interior params block) (emitter.entering line form)
      (inner.1.map fun (texts, text) =>
          (Mark.statement line).written emitter.layout ++ form.word ++ name ++
            parenthesize (String.intercalate ", " texts) ++ text,
        { inner.2 with
          inDefinition := emitter.inDefinition
          returnWord := emitter.returnWord }) := by
  cases reached : runFrom (interior params block) (emitter.entering line form) with
  | mk outcome after =>
    unfold Emitter.entering at reached
    unfold definition
    rw [runFrom_bind, runFrom_place]
    simp only
    rw [runFrom_get, runFrom_bind, runFrom_change]
    simp only
    rw [runFrom_bind, runFrom_observe, reached]
    simp only
    rw [runFrom_bind, runFrom_change]
    simp only
    rw [runFrom_bind, runFrom_release]
    cases outcome <;> rfl

/-! ## Every statement -/

mutual

/-- Render a node as a statement. -/
def visit : Node → Emit String
  | .importRule path line => importRule path line
  | .group [] b => malformed .groupWithoutSelectors b.line
  | .group (⟨nodes, line⟩ :: rest) b => do
    let lead ← place (.statement line)
    let first ← segments nodes
    let more ← selectors rest
    return lead ++ first ++ more ++ (← block b)
  | .property name node line => property name node line
  | .ident name interpolated lookup line =>
    expressionStatement (.ident name interpolated lookup line)
  | .binding _ (.definition name params b line) _ _ _ =>
    definition name params.nodes line (formOf b) (block b)
  | .binding name node _ _ line => assignment name node line
  | .conditional condition b others line => do
    let lead ← place (.statement line)
    let text ← value condition
    let body ← block b
    return lead ++ "@if " ++ text ++ body ++ (← alternatives others)
  | .loop name key source b line => do
    let lead ← place (.statement line)
    let head ← loopHead name key source line
    return lead ++ head ++ (← block b)
  | .definition name params b line =>
    definition name params.nodes line (formOf b) (block b)
  | .unsupported kind line => unsupported kind line
  | .expression e => expressionStatement (.expression e)
  | .call name arguments line => expressionStatement (.call name arguments line)
  | .binary op left right line => expressionStatement (.binary op left right line)
  | .unary op operand line => expressionStatement (.unary op operand line)
  | .literal l => expressionStatement (.literal l)
  | .measure value unit line => expressionStatement (.measure value unit line)
  | .boolean value line => expressionStatement (.boolean value line)
  | .color raw line => expressionStatement (.color raw line)
  | node => malformed (.notStatement node.kind) node.line

/-- Render the alternatives of a conditional. -/
def alternatives : List Node → Emit String
  | [] => return ""
  | .conditional condition b others line :: rest => do
    let _ ← place (.clause line)
    let text ← value condition
    let body ← block b
    let inner ← alternatives others
    return " @else if " ++ text ++ body ++ inner ++ (← alternatives rest)
  | .block b :: rest => do
    let _ ← place (.clause b.line)
    let body ← block b
    return " @else" ++ body ++ (← alternatives rest)
  | node :: _ => malformed (.notAlternative node.kind) node.line

/-- Render a block. -/
def block : Block → Emit String
  | ⟨nodes, _⟩ => enclosed (statements nodes)

/-- Render statements one after the other. -/
def statements : List Node → Emit String
  | [] => return ""
  | node :: rest => do
    let first ← visit node
    return first ++ (← statements rest)

end

end Emit

/-- Render a tree. -/
def Stylesheet.emit (policy : Policy) (sheet : Stylesheet) : Except ConversionError String :=
  ((Emit.statements sheet.nodes).runFrom (Emitter.start policy)).1

end StylusToScss
