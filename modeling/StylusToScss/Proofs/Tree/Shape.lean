import StylusToScss.Tree.Basic

/-!
# The shape of a tree

Statements and values are nodes of one type, so a tree can hold a node where no such node can be
written. `Node.IsStatement` and `Node.IsValue` say that it does not. They are defined by recursion
through the lists of nodes; `areValues_iff` and `areStatements_iff` give them for each node of a
list.

Two things may or may not be allowed: an unsupported construct inside a value, and a group without
selectors. A `Leeway` says which.
-/

namespace StylusToScss

/-- What a tree may hold besides what can always be written. -/
structure Leeway where
  /-- Unsupported constructs as values. -/
  unsupported : Prop
  /-- Groups without selectors. -/
  bare : Prop

variable (may : Leeway)

mutual

/-- The node can be written as a value. -/
def Node.IsValue : Node → Prop
  | .expression ⟨nodes, _, _, _⟩ => AreValues nodes
  | .call _ ⟨nodes, _⟩ _ => AreValues nodes
  | .arguments ⟨nodes, _⟩ => AreValues nodes
  | .params ⟨nodes, _⟩ => AreValues nodes
  | .binding _ value _ _ _ => value.IsValue
  | .binary _ left right _ => left.IsValue ∧ right.IsValue
  | .unary _ operand _ => operand.IsValue
  | .ident _ _ _ _ | .literal _ | .measure _ _ _ | .boolean _ _ | .color _ _ => True
  | .unsupported _ _ => may.unsupported
  | _ => False

/-- All of the nodes can be written as values. -/
def AreValues : List Node → Prop
  | [] => True
  | node :: rest => node.IsValue ∧ AreValues rest

end

/-- The nodes of an expression can be written as values. -/
def Expression.IsValue (expression : Expression) : Prop := AreValues may expression.nodes

/-- A parameter of a definition: a name, or a name with a default. -/
def Node.IsParameter : Node → Prop
  | .ident _ _ _ _ => True
  | .binding _ value _ _ _ => value.IsValue may
  | _ => False

mutual

/-- The node can be written as a statement. A definition may also be the value of a name. -/
def Node.IsStatement : Node → Prop
  | .importRule path _ => path ≠ []
  | .group selectors ⟨nodes, _⟩ =>
    (selectors = [] → may.bare) ∧ (∀ selector ∈ selectors, AreValues may selector.segments) ∧
      AreStatements nodes
  | .property segments value _ => AreValues may segments ∧ value.IsValue may
  | .binding _ (.definition _ ⟨params, _⟩ ⟨nodes, _⟩ _) _ _ _ =>
    (∀ param ∈ params, param.IsParameter may) ∧ AreStatements nodes
  | .definition _ ⟨params, _⟩ ⟨nodes, _⟩ _ =>
    (∀ param ∈ params, param.IsParameter may) ∧ AreStatements nodes
  | .conditional condition ⟨nodes, _⟩ alternatives _ =>
    condition.IsValue may ∧ AreStatements nodes ∧ AreAlternatives alternatives
  | .loop _ _ source ⟨nodes, _⟩ _ => source.IsValue may ∧ AreStatements nodes
  | .unsupported _ _ => True
  | .selector _ | .block _ | .arguments _ | .params _ => False
  | node => node.IsValue may

/-- Each of the nodes can be an alternative of a conditional. -/
def AreAlternatives : List Node → Prop
  | [] => True
  | .conditional condition ⟨nodes, _⟩ alternatives _ :: rest =>
    condition.IsValue may ∧ AreStatements nodes ∧ AreAlternatives alternatives ∧
      AreAlternatives rest
  | .block ⟨nodes, _⟩ :: rest => AreStatements nodes ∧ AreAlternatives rest
  | _ :: _ => False

/-- All of the nodes can be written as statements. -/
def AreStatements : List Node → Prop
  | [] => True
  | node :: rest => node.IsStatement ∧ AreStatements rest

end

variable {may}

/-! ## One constructor -/

section
variable {block : Block} {params : Arguments} {condition : Node} {source : Expression}
  {selectors : List Selector} {alternatives rest : List Node} {name : String} {line : Nat}

theorem Node.isValue_expression {expression : Expression} :
    (Node.expression expression).IsValue may ↔ expression.IsValue may := by
  cases expression
  rfl

theorem Node.isStatement_group : (Node.group selectors block).IsStatement may ↔
    (selectors = [] → may.bare) ∧ (∀ selector ∈ selectors, AreValues may selector.segments) ∧
      AreStatements may block.nodes := by
  cases block
  rfl

theorem Node.isStatement_conditional :
    (Node.conditional condition block alternatives line).IsStatement may ↔
      condition.IsValue may ∧ AreStatements may block.nodes ∧
        AreAlternatives may alternatives := by
  cases block
  rfl

theorem Node.isStatement_loop {key : Option String} :
    (Node.loop name key source block line).IsStatement may ↔
      source.IsValue may ∧ AreStatements may block.nodes := by
  cases block
  rfl

theorem Node.isStatement_definition : (Node.definition name params block line).IsStatement may ↔
    (∀ param ∈ params.nodes, param.IsParameter may) ∧ AreStatements may block.nodes := by
  cases params
  cases block
  rfl

theorem areAlternatives_conditional :
    AreAlternatives may (.conditional condition block alternatives line :: rest) ↔
      condition.IsValue may ∧ AreStatements may block.nodes ∧ AreAlternatives may alternatives ∧
        AreAlternatives may rest := by
  cases block
  rfl

theorem areAlternatives_block : AreAlternatives may (.block block :: rest) ↔
    AreStatements may block.nodes ∧ AreAlternatives may rest := by
  cases block
  rfl

end

/-! ## Lists -/

theorem areValues_iff {nodes : List Node} :
    AreValues may nodes ↔ ∀ node ∈ nodes, node.IsValue may := by
  induction nodes with
  | nil => simp [AreValues]
  | cons node rest ih => simp [AreValues, ih]

theorem areStatements_iff {nodes : List Node} :
    AreStatements may nodes ↔ ∀ node ∈ nodes, node.IsStatement may := by
  induction nodes with
  | nil => simp [AreStatements]
  | cons node rest ih => simp [AreStatements, ih]

theorem areValues_append {a b : List Node} :
    AreValues may (a ++ b) ↔ AreValues may a ∧ AreValues may b := by
  simp only [areValues_iff, List.forall_mem_append]

theorem areStatements_append {a b : List Node} :
    AreStatements may (a ++ b) ↔ AreStatements may a ∧ AreStatements may b := by
  simp only [areStatements_iff, List.forall_mem_append]

end StylusToScss
