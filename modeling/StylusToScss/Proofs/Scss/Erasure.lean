import StylusToScss.Proofs.Tree.Keeping

/-!
# A tree without its unsupported parts

Unsupported constructs stand in a tree as members of its statement lists: of the stylesheet itself,
and of the blocks at any depth. `Stylesheet.erased` takes them out, and with them the keys of loops
over ranges, which have no counterpart either. `Stylesheet.dropped` lists what is taken out, in the
order of the walk. What a node is, and on which line, stays as it was.
-/

namespace StylusToScss

/-! ## Erasing -/

/-- The key of a loop, unless the loop is one over a range. -/
def keptKey (key : Option String) (source : Expression) : Option String :=
  if (range? source).isSome then none else key

mutual

/-- The node without the unsupported members of its statement lists, and without the keys of its
loops over ranges. -/
def Node.erased : Node → Node
  | .group selectors ⟨members, number⟩ =>
    .group (erasedSelectors selectors) ⟨erasedMembers members, number⟩
  | .selector ⟨segments, number⟩ => .selector ⟨erasedNodes segments, number⟩
  | .block ⟨members, number⟩ => .block ⟨erasedMembers members, number⟩
  | .property segments ⟨nodes, isList, parenthesized, number⟩ line =>
    .property (erasedNodes segments) ⟨erasedNodes nodes, isList, parenthesized, number⟩ line
  | .binding name value interpolated lookup line =>
    .binding name value.erased interpolated lookup line
  | .expression ⟨nodes, isList, parenthesized, number⟩ =>
    .expression ⟨erasedNodes nodes, isList, parenthesized, number⟩
  | .call name ⟨nodes, number⟩ line => .call name ⟨erasedNodes nodes, number⟩ line
  | .arguments ⟨nodes, number⟩ => .arguments ⟨erasedNodes nodes, number⟩
  | .params ⟨nodes, number⟩ => .params ⟨erasedNodes nodes, number⟩
  | .binary op left right line => .binary op left.erased right.erased line
  | .unary op operand line => .unary op operand.erased line
  | .conditional condition ⟨members, number⟩ alternatives line =>
    .conditional condition.erased ⟨erasedMembers members, number⟩ (erasedNodes alternatives) line
  | .loop item key ⟨nodes, isList, parenthesized, number⟩ ⟨members, number'⟩ line =>
    .loop item (keptKey key ⟨nodes, isList, parenthesized, number⟩)
      ⟨erasedNodes nodes, isList, parenthesized, number⟩ ⟨erasedMembers members, number'⟩ line
  | .definition name ⟨nodes, number⟩ ⟨members, number'⟩ line =>
    .definition name ⟨erasedNodes nodes, number⟩ ⟨erasedMembers members, number'⟩ line
  | .importRule path line => .importRule path line
  | .ident name interpolated lookup line => .ident name interpolated lookup line
  | .literal l => .literal l
  | .measure value unit line => .measure value unit line
  | .boolean value line => .boolean value line
  | .color raw line => .color raw line
  | .unsupported kind line => .unsupported kind line

/-- The nodes of a list that is none of statements, each erased. -/
def erasedNodes : List Node → List Node
  | [] => []
  | node :: rest => node.erased :: erasedNodes rest

/-- The selectors, each erased. -/
def erasedSelectors : List Selector → List Selector
  | [] => []
  | ⟨segments, number⟩ :: rest => ⟨erasedNodes segments, number⟩ :: erasedSelectors rest

/-- A statement list without its unsupported members, and the others erased. -/
def erasedMembers : List Node → List Node
  | [] => []
  | .unsupported _ _ :: rest => erasedMembers rest
  | node :: rest => node.erased :: erasedMembers rest

end

/-- The expression, erased. -/
def Expression.erased (expression : Expression) : Expression :=
  { expression with nodes := erasedNodes expression.nodes }

/-- The block, erased. -/
def Block.erased (block : Block) : Block := { block with nodes := erasedMembers block.nodes }

/-- The arguments, erased. -/
def Arguments.erased (arguments : Arguments) : Arguments :=
  { arguments with nodes := erasedNodes arguments.nodes }

/-- The stylesheet without its unsupported parts. -/
def Stylesheet.erased (sheet : Stylesheet) : Stylesheet := ⟨erasedMembers sheet.nodes⟩

/-! ## What is erased -/

/-- The key of a loop over a range, as a warning. -/
def droppedKey (key : Option String) (source : Expression) (line : Nat) : List Warning :=
  if (range? source).isSome ∧ key.isSome then [⟨"range loop key", line⟩] else []

mutual

/-- The unsupported parts of a node, in the order of the walk. -/
def Node.dropped : Node → List Warning
  | .unsupported kind line => [⟨kind, line⟩]
  | .group selectors ⟨members, _⟩ => droppedSelectors selectors ++ droppedNodes members
  | .selector ⟨segments, _⟩ => droppedNodes segments
  | .block ⟨members, _⟩ => droppedNodes members
  | .property segments ⟨nodes, _, _, _⟩ _ => droppedNodes segments ++ droppedNodes nodes
  | .binding _ value _ _ _ => value.dropped
  | .expression ⟨nodes, _, _, _⟩ => droppedNodes nodes
  | .call _ ⟨nodes, _⟩ _ => droppedNodes nodes
  | .arguments ⟨nodes, _⟩ => droppedNodes nodes
  | .params ⟨nodes, _⟩ => droppedNodes nodes
  | .binary _ left right _ => left.dropped ++ right.dropped
  | .unary _ operand _ => operand.dropped
  | .conditional condition ⟨members, _⟩ alternatives _ =>
    condition.dropped ++ (droppedNodes members ++ droppedNodes alternatives)
  | .loop _ key ⟨nodes, isList, parenthesized, number⟩ ⟨members, _⟩ line =>
    droppedKey key ⟨nodes, isList, parenthesized, number⟩ line ++
      (droppedNodes nodes ++ droppedNodes members)
  | .definition _ ⟨nodes, _⟩ ⟨members, _⟩ _ => droppedNodes nodes ++ droppedNodes members
  | .importRule _ _ | .ident _ _ _ _ | .literal _ | .measure _ _ _ | .boolean _ _ | .color _ _ => []

/-- The unsupported parts of the nodes of a list. -/
def droppedNodes : List Node → List Warning
  | [] => []
  | node :: rest => node.dropped ++ droppedNodes rest

/-- The unsupported parts of selectors. -/
def droppedSelectors : List Selector → List Warning
  | [] => []
  | ⟨segments, _⟩ :: rest => droppedNodes segments ++ droppedSelectors rest

end

/-- The unsupported parts of a stylesheet, in the order of the walk. -/
def Stylesheet.dropped (sheet : Stylesheet) : List Warning := droppedNodes sheet.nodes

/-! ## Where unsupported constructs may stand -/

mutual

/-- The node is no unsupported construct, and within it they are only members of statement lists. -/
def Node.Orderly : Node → Prop
  | .unsupported _ _ => False
  | .group selectors ⟨members, _⟩ => OrderlySelectors selectors ∧ OrderlyMembers members
  | .selector ⟨segments, _⟩ => OrderlyNodes segments
  | .block ⟨members, _⟩ => OrderlyMembers members
  | .property segments ⟨nodes, _, _, _⟩ _ => OrderlyNodes segments ∧ OrderlyNodes nodes
  | .binding _ value _ _ _ => value.Orderly
  | .expression ⟨nodes, _, _, _⟩ => OrderlyNodes nodes
  | .call _ ⟨nodes, _⟩ _ => OrderlyNodes nodes
  | .arguments ⟨nodes, _⟩ => OrderlyNodes nodes
  | .params ⟨nodes, _⟩ => OrderlyNodes nodes
  | .binary _ left right _ => left.Orderly ∧ right.Orderly
  | .unary _ operand _ => operand.Orderly
  | .conditional condition ⟨members, _⟩ alternatives _ =>
    condition.Orderly ∧ OrderlyMembers members ∧ OrderlyNodes alternatives
  | .loop _ _ ⟨nodes, _, _, _⟩ ⟨members, _⟩ _ => OrderlyNodes nodes ∧ OrderlyMembers members
  | .definition _ ⟨nodes, _⟩ ⟨members, _⟩ _ => OrderlyNodes nodes ∧ OrderlyMembers members
  | .importRule _ _ | .ident _ _ _ _ | .literal _ | .measure _ _ _ | .boolean _ _ | .color _ _ =>
    True

/-- All nodes of a list that is none of statements are orderly. -/
def OrderlyNodes : List Node → Prop
  | [] => True
  | node :: rest => node.Orderly ∧ OrderlyNodes rest

/-- All segments of the selectors are orderly. -/
def OrderlySelectors : List Selector → Prop
  | [] => True
  | ⟨segments, _⟩ :: rest => OrderlyNodes segments ∧ OrderlySelectors rest

/-- Each member of a statement list is an unsupported construct, or orderly. -/
def OrderlyMembers : List Node → Prop
  | [] => True
  | .unsupported _ _ :: rest => OrderlyMembers rest
  | node :: rest => node.Orderly ∧ OrderlyMembers rest

end

/-- The unsupported constructs of the stylesheet are members of statement lists. -/
def Stylesheet.Orderly (sheet : Stylesheet) : Prop := OrderlyMembers sheet.nodes

/-! ## What erasing keeps -/

@[simp] theorem Node.kind_erased (node : Node) : node.erased.kind = node.kind := by
  unfold erased
  split <;> rfl

theorem groupLine_erasedSelectors (selectors : List Selector) :
    groupLine (erasedSelectors selectors) = groupLine selectors := by
  cases selectors with
  | nil => rfl
  | cons selector rest => cases selector; rfl

@[simp] theorem Node.line_erased (node : Node) : node.erased.line = node.line := by
  unfold erased
  split
  · exact groupLine_erasedSelectors _
  all_goals rfl

theorem Node.erased_eq_ident_iff {node : Node} {name : String} {interpolated lookup : Bool}
    {line : Nat} : node.erased = .ident name interpolated lookup line ↔
      node = .ident name interpolated lookup line := by
  unfold erased
  split <;> simp

theorem erasedNodes_eq_map (nodes : List Node) : erasedNodes nodes = nodes.map Node.erased := by
  induction nodes with
  | nil => rfl
  | cons node rest ih => rw [erasedNodes, ih, List.map_cons]

theorem keepsForms_erased : KeepsForms Node.erased Expression.erased where
  kept node := by
    unfold Node.erased
    split
    case h_6 => exact .expression _
    all_goals first | exact .other rfl rfl | constructor
  nodes e := erasedNodes_eq_map e.nodes
  parenthesized _ := rfl

mutual

theorem Node.setsProperty_erased : ∀ node : Node, node.erased.setsProperty = node.setsProperty
  | .group _ ⟨members, _⟩ => setsProperty_erasedMembers members
  | .block ⟨members, _⟩ => setsProperty_erasedMembers members
  | .loop _ _ ⟨_, _, _, _⟩ ⟨members, _⟩ _ => setsProperty_erasedMembers members
  | .conditional _ ⟨members, _⟩ alternatives _ => by
    show (StylusToScss.setsProperty _ || StylusToScss.setsProperty _) = _
    rw [setsProperty_erasedMembers members, setsProperty_erasedNodes alternatives]
    rfl
  | .property _ ⟨_, _, _, _⟩ _ | .selector ⟨_, _⟩ | .binding _ _ _ _ _ | .expression ⟨_, _, _, _⟩
  | .call _ ⟨_, _⟩ _ | .arguments ⟨_, _⟩ | .params ⟨_, _⟩ | .binary _ _ _ _ | .unary _ _ _
  | .definition _ ⟨_, _⟩ ⟨_, _⟩ _ | .importRule _ _ | .ident _ _ _ _ | .literal _ | .measure _ _ _
  | .boolean _ _ | .color _ _ | .unsupported _ _ => rfl

theorem setsProperty_erasedNodes : ∀ nodes : List Node,
    setsProperty (erasedNodes nodes) = setsProperty nodes
  | [] => rfl
  | node :: rest => by
    show (node.erased.setsProperty || setsProperty (erasedNodes rest)) = _
    rw [node.setsProperty_erased, setsProperty_erasedNodes rest]
    rfl

theorem setsProperty_erasedMembers : ∀ members : List Node,
    setsProperty (erasedMembers members) = setsProperty members
  | [] => rfl
  | node :: rest => by
    unfold erasedMembers
    split
    · next none => cases none
    · next same =>
      cases same
      exact setsProperty_erasedMembers rest
    · next same =>
      cases same
      show (node.erased.setsProperty || setsProperty (erasedMembers rest)) = _
      rw [node.setsProperty_erased, setsProperty_erasedMembers rest]
      rfl

end

theorem formOf_erased (block : Block) : formOf block.erased = formOf block := by
  unfold formOf Block.erased
  rw [setsProperty_erasedMembers]

end StylusToScss
