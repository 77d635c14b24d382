import StylusToScss.Tree.Basic

/-!
# A tree with other line numbers

Each node of a tree knows the line that it starts on. `renumberedNodes` gives every node the line
that a function finds for it, and leaves everything else as it is; `raisedNodes` raises all lines
equally far, as for a text that stands behind other lines.
-/

namespace StylusToScss

/-- The literal with another line number. -/
def Literal.renumbered (f : Nat → Nat) (literal : Literal) : Literal :=
  { literal with line := f literal.line }

mutual

/-- The node with other line numbers. -/
def Node.renumbered (f : Nat → Nat) : Node → Node
  | .importRule path line => .importRule (path.map (·.renumbered f)) (f line)
  | .group selectors ⟨members, line⟩ =>
    .group (renumberedSelectors f selectors) ⟨renumberedNodes f members, f line⟩
  | .selector ⟨segments, line⟩ => .selector ⟨renumberedNodes f segments, f line⟩
  | .block ⟨members, line⟩ => .block ⟨renumberedNodes f members, f line⟩
  | .property segments ⟨nodes, isList, parenthesized, line⟩ number =>
    .property (renumberedNodes f segments)
      ⟨renumberedNodes f nodes, isList, parenthesized, f line⟩ (f number)
  | .ident name interpolated lookup line => .ident name interpolated lookup (f line)
  | .binding name value interpolated lookup line =>
    .binding name (value.renumbered f) interpolated lookup (f line)
  | .expression ⟨nodes, isList, parenthesized, line⟩ =>
    .expression ⟨renumberedNodes f nodes, isList, parenthesized, f line⟩
  | .call name ⟨nodes, line⟩ number => .call name ⟨renumberedNodes f nodes, f line⟩ (f number)
  | .arguments ⟨nodes, line⟩ => .arguments ⟨renumberedNodes f nodes, f line⟩
  | .params ⟨nodes, line⟩ => .params ⟨renumberedNodes f nodes, f line⟩
  | .binary op left right line => .binary op (left.renumbered f) (right.renumbered f) (f line)
  | .unary op operand line => .unary op (operand.renumbered f) (f line)
  | .conditional condition ⟨members, line⟩ alternatives number =>
    .conditional (condition.renumbered f) ⟨renumberedNodes f members, f line⟩
      (renumberedNodes f alternatives) (f number)
  | .loop item key ⟨nodes, isList, parenthesized, line⟩ ⟨members, start⟩ number =>
    .loop item key ⟨renumberedNodes f nodes, isList, parenthesized, f line⟩
      ⟨renumberedNodes f members, f start⟩ (f number)
  | .literal l => .literal (l.renumbered f)
  | .measure value unit line => .measure value unit (f line)
  | .boolean value line => .boolean value (f line)
  | .color raw line => .color raw (f line)
  | .definition name ⟨nodes, line⟩ ⟨members, start⟩ number =>
    .definition name ⟨renumberedNodes f nodes, f line⟩ ⟨renumberedNodes f members, f start⟩
      (f number)
  | .unsupported kind line => .unsupported kind (f line)

/-- The nodes with other line numbers. -/
def renumberedNodes (f : Nat → Nat) : List Node → List Node
  | [] => []
  | node :: rest => node.renumbered f :: renumberedNodes f rest

/-- The selectors with other line numbers. -/
def renumberedSelectors (f : Nat → Nat) : List Selector → List Selector
  | [] => []
  | ⟨segments, line⟩ :: rest =>
    ⟨renumberedNodes f segments, f line⟩ :: renumberedSelectors f rest

end

/-- The expression with other line numbers. -/
def Expression.renumbered (f : Nat → Nat) (expression : Expression) : Expression :=
  { expression with nodes := renumberedNodes f expression.nodes, line := f expression.line }

/-- The block with other line numbers. -/
def Block.renumbered (f : Nat → Nat) (block : Block) : Block :=
  ⟨renumberedNodes f block.nodes, f block.line⟩

/-- The arguments with other line numbers. -/
def Arguments.renumbered (f : Nat → Nat) (arguments : Arguments) : Arguments :=
  ⟨renumberedNodes f arguments.nodes, f arguments.line⟩

/-- The selector with other line numbers. -/
def Selector.renumbered (f : Nat → Nat) (selector : Selector) : Selector :=
  ⟨renumberedNodes f selector.segments, f selector.line⟩

/-- The node with all line numbers raised by `n`. -/
abbrev Node.raised (n : Nat) (node : Node) : Node := node.renumbered (· + n)

/-- The expression with all line numbers raised by `n`. -/
abbrev Expression.raised (n : Nat) (expression : Expression) : Expression :=
  expression.renumbered (· + n)

/-- The nodes with all line numbers raised by `n`. -/
abbrev raisedNodes (n : Nat) (nodes : List Node) : List Node := renumberedNodes (· + n) nodes

variable {f : Nat → Nat}

section
variable {name : String} {expression : Expression} {block : Block} {number : Nat}

@[simp] theorem Node.renumbered_expression :
    (Node.expression expression).renumbered f = .expression (expression.renumbered f) := by
  cases expression
  rfl

@[simp] theorem Node.renumbered_property {segments : List Node} :
    (Node.property segments expression number).renumbered f =
      .property (renumberedNodes f segments) (expression.renumbered f) (f number) := by
  cases expression
  rfl

@[simp] theorem Node.renumbered_group {selectors : List Selector} :
    (Node.group selectors block).renumbered f =
      .group (renumberedSelectors f selectors) (block.renumbered f) := by
  cases block
  rfl

@[simp] theorem Node.renumbered_block :
    (Node.block block).renumbered f = .block (block.renumbered f) := by
  cases block
  rfl

@[simp] theorem Node.renumbered_conditional {condition : Node} {alternatives : List Node} :
    (Node.conditional condition block alternatives number).renumbered f =
      .conditional (condition.renumbered f) (block.renumbered f)
        (renumberedNodes f alternatives) (f number) := by
  cases block
  rfl

@[simp] theorem Node.renumbered_loop {key : Option String} :
    (Node.loop name key expression block number).renumbered f =
      .loop name key (expression.renumbered f) (block.renumbered f) (f number) := by
  cases expression
  cases block
  rfl

@[simp] theorem Node.renumbered_definition {params : Arguments} :
    (Node.definition name params block number).renumbered f =
      .definition name (params.renumbered f) (block.renumbered f) (f number) := by
  cases params
  cases block
  rfl

end

theorem renumberedNodes_eq_map (f : Nat → Nat) (nodes : List Node) :
    renumberedNodes f nodes = nodes.map (·.renumbered f) := by
  induction nodes with
  | nil => rfl
  | cons node rest ih => rw [renumberedNodes, ih, List.map_cons]

theorem renumberedSelectors_eq_map (f : Nat → Nat) (selectors : List Selector) :
    renumberedSelectors f selectors = selectors.map (·.renumbered f) := by
  induction selectors with
  | nil => rfl
  | cons selector rest ih =>
    cases selector
    rw [renumberedSelectors, ih, List.map_cons]
    rfl

theorem renumberedNodes_append (a b : List Node) :
    renumberedNodes f (a ++ b) = renumberedNodes f a ++ renumberedNodes f b := by
  rw [renumberedNodes_eq_map, renumberedNodes_eq_map, renumberedNodes_eq_map, List.map_append]

/-! ## Lines that stay -/

mutual

theorem Node.renumbered_id : ∀ node : Node, node.renumbered (fun line => line) = node
  | .importRule path _ => by
    show Node.importRule (path.map fun literal => literal) _ = _
    rw [List.map_id']
  | .group selectors ⟨members, _⟩ => by
    show Node.group (renumberedSelectors _ _) ⟨renumberedNodes _ _, _⟩ = _
    rw [renumberedSelectors_id selectors, renumberedNodes_id members]
  | .selector ⟨members, _⟩ => by
    show Node.selector ⟨renumberedNodes _ _, _⟩ = _
    rw [renumberedNodes_id members]
  | .block ⟨members, _⟩ => by
    show Node.block ⟨renumberedNodes _ _, _⟩ = _
    rw [renumberedNodes_id members]
  | .property segments ⟨nodes, _, _, _⟩ _ => by
    show Node.property (renumberedNodes _ _) ⟨renumberedNodes _ _, _, _, _⟩ _ = _
    rw [renumberedNodes_id segments, renumberedNodes_id nodes]
  | .binding _ value _ _ _ => by
    show Node.binding _ (value.renumbered _) _ _ _ = _
    rw [value.renumbered_id]
  | .expression ⟨nodes, _, _, _⟩ => by
    show Node.expression ⟨renumberedNodes _ _, _, _, _⟩ = _
    rw [renumberedNodes_id nodes]
  | .call _ ⟨nodes, _⟩ _ => by
    show Node.call _ ⟨renumberedNodes _ _, _⟩ _ = _
    rw [renumberedNodes_id nodes]
  | .arguments ⟨nodes, _⟩ => by
    show Node.arguments ⟨renumberedNodes _ _, _⟩ = _
    rw [renumberedNodes_id nodes]
  | .params ⟨nodes, _⟩ => by
    show Node.params ⟨renumberedNodes _ _, _⟩ = _
    rw [renumberedNodes_id nodes]
  | .binary _ left right _ => by
    show Node.binary _ (left.renumbered _) (right.renumbered _) _ = _
    rw [left.renumbered_id, right.renumbered_id]
  | .unary _ operand _ => by
    show Node.unary _ (operand.renumbered _) _ = _
    rw [operand.renumbered_id]
  | .conditional condition ⟨members, _⟩ alternatives _ => by
    show Node.conditional (condition.renumbered _) ⟨renumberedNodes _ _, _⟩
      (renumberedNodes _ _) _ = _
    rw [condition.renumbered_id, renumberedNodes_id members, renumberedNodes_id alternatives]
  | .loop _ _ ⟨nodes, _, _, _⟩ ⟨members, _⟩ _ => by
    show Node.loop _ _ ⟨renumberedNodes _ _, _, _, _⟩ ⟨renumberedNodes _ _, _⟩ _ = _
    rw [renumberedNodes_id nodes, renumberedNodes_id members]
  | .definition _ ⟨nodes, _⟩ ⟨members, _⟩ _ => by
    show Node.definition _ ⟨renumberedNodes _ _, _⟩ ⟨renumberedNodes _ _, _⟩ _ = _
    rw [renumberedNodes_id nodes, renumberedNodes_id members]
  | .ident _ _ _ _ | .literal _ | .measure _ _ _ | .boolean _ _ | .color _ _
  | .unsupported _ _ => rfl

theorem renumberedNodes_id : ∀ nodes : List Node, renumberedNodes (fun line => line) nodes = nodes
  | [] => rfl
  | node :: rest => by
    rw [renumberedNodes, node.renumbered_id, renumberedNodes_id rest]

theorem renumberedSelectors_id :
    ∀ selectors : List Selector, renumberedSelectors (fun line => line) selectors = selectors
  | [] => rfl
  | ⟨segments, _⟩ :: rest => by
    rw [renumberedSelectors, renumberedNodes_id segments, renumberedSelectors_id rest]

end

theorem Expression.renumbered_id (expression : Expression) :
    expression.renumbered (fun line => line) = expression := by
  cases expression
  rw [Expression.renumbered, renumberedNodes_id]

theorem Arguments.renumbered_id (arguments : Arguments) :
    arguments.renumbered (fun line => line) = arguments := by
  cases arguments
  rw [Arguments.renumbered, renumberedNodes_id]

theorem raisedNodes_zero (nodes : List Node) : raisedNodes 0 nodes = nodes :=
  renumberedNodes_id nodes

end StylusToScss
