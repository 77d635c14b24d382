import StylusToScss.Proofs.Tree.Keeping

/-!
# A tree without its line numbers

Each node of a tree knows the line that it starts on. `Stylesheet.unnumbered` sets all of these to
zero and leaves everything else as it is, so two trees are equal but for their line numbers if they
are equal without them.
-/

namespace StylusToScss

/-! ## Taking line numbers off -/

/-- The literal without its line number. -/
def Literal.unnumbered (literal : Literal) : Literal := { literal with line := 0 }

mutual

/-- The node without line numbers. -/
def Node.unnumbered : Node → Node
  | .importRule path _ => .importRule (path.map Literal.unnumbered) 0
  | .group selectors ⟨members, _⟩ =>
    .group (unnumberedSelectors selectors) ⟨unnumberedNodes members, 0⟩
  | .selector ⟨segments, _⟩ => .selector ⟨unnumberedNodes segments, 0⟩
  | .block ⟨members, _⟩ => .block ⟨unnumberedNodes members, 0⟩
  | .property segments ⟨nodes, isList, parenthesized, _⟩ _ =>
    .property (unnumberedNodes segments) ⟨unnumberedNodes nodes, isList, parenthesized, 0⟩ 0
  | .ident name interpolated lookup _ => .ident name interpolated lookup 0
  | .binding name value interpolated lookup _ =>
    .binding name value.unnumbered interpolated lookup 0
  | .expression ⟨nodes, isList, parenthesized, _⟩ =>
    .expression ⟨unnumberedNodes nodes, isList, parenthesized, 0⟩
  | .call name ⟨nodes, _⟩ _ => .call name ⟨unnumberedNodes nodes, 0⟩ 0
  | .arguments ⟨nodes, _⟩ => .arguments ⟨unnumberedNodes nodes, 0⟩
  | .params ⟨nodes, _⟩ => .params ⟨unnumberedNodes nodes, 0⟩
  | .binary op left right _ => .binary op left.unnumbered right.unnumbered 0
  | .unary op operand _ => .unary op operand.unnumbered 0
  | .conditional condition ⟨members, _⟩ alternatives _ =>
    .conditional condition.unnumbered ⟨unnumberedNodes members, 0⟩ (unnumberedNodes alternatives) 0
  | .loop item key ⟨nodes, isList, parenthesized, _⟩ ⟨members, _⟩ _ =>
    .loop item key ⟨unnumberedNodes nodes, isList, parenthesized, 0⟩
      ⟨unnumberedNodes members, 0⟩ 0
  | .literal l => .literal l.unnumbered
  | .measure value unit _ => .measure value unit 0
  | .boolean value _ => .boolean value 0
  | .color raw _ => .color raw 0
  | .definition name ⟨nodes, _⟩ ⟨members, _⟩ _ =>
    .definition name ⟨unnumberedNodes nodes, 0⟩ ⟨unnumberedNodes members, 0⟩ 0
  | .unsupported kind _ => .unsupported kind 0

/-- The nodes without line numbers. -/
def unnumberedNodes : List Node → List Node
  | [] => []
  | node :: rest => node.unnumbered :: unnumberedNodes rest

/-- The selectors without line numbers. -/
def unnumberedSelectors : List Selector → List Selector
  | [] => []
  | ⟨segments, _⟩ :: rest => ⟨unnumberedNodes segments, 0⟩ :: unnumberedSelectors rest

end

/-- The expression without line numbers. -/
def Expression.unnumbered (expression : Expression) : Expression :=
  { expression with nodes := unnumberedNodes expression.nodes, line := 0 }

/-- The block without line numbers. -/
def Block.unnumbered (block : Block) : Block := ⟨unnumberedNodes block.nodes, 0⟩

/-- The stylesheet without line numbers. -/
def Stylesheet.unnumbered (sheet : Stylesheet) : Stylesheet := ⟨unnumberedNodes sheet.nodes⟩

/-! ## What line numbers have no part in -/

theorem Node.kind_unnumbered (node : Node) : node.unnumbered.kind = node.kind := by
  unfold unnumbered
  split <;> rfl

theorem Node.line_unnumbered (node : Node) : node.unnumbered.line = 0 := by
  unfold unnumbered
  split
  case h_2 selectors _ _ =>
    cases selectors with
    | nil => rfl
    | cons first rest =>
      cases first
      rfl
  all_goals rfl

/-- A bare name stays one, and nothing else becomes one. -/
theorem Node.bare_of_unnumbered {node : Node} {name : String} {line : Nat}
    (h : node.unnumbered = .ident name false false line) :
    ∃ number, node = .ident name false false number := by
  unfold unnumbered at h
  split at h <;> cases h
  exact ⟨_, rfl⟩

theorem unnumberedNodes_eq_map (nodes : List Node) :
    unnumberedNodes nodes = nodes.map Node.unnumbered := by
  induction nodes with
  | nil => rfl
  | cons node rest ih => rw [unnumberedNodes, ih, List.map_cons]

theorem pathQuote_unnumbered (path : List Literal) :
    pathQuote (path.map Literal.unnumbered) = pathQuote path := by
  unfold pathQuote
  rw [List.findSome?_map]
  rfl

theorem keepsForms_unnumbered : KeepsForms Node.unnumbered Expression.unnumbered where
  kept node := by
    unfold Node.unnumbered
    split
    case h_8 => exact .expression _
    all_goals first | exact .other rfl rfl | constructor
  nodes e := unnumberedNodes_eq_map e.nodes
  parenthesized _ := rfl

mutual

theorem Node.setsProperty_unnumbered : ∀ node : Node,
    node.unnumbered.setsProperty = node.setsProperty
  | .group _ ⟨members, _⟩ | .block ⟨members, _⟩ | .loop _ _ ⟨_, _, _, _⟩ ⟨members, _⟩ _ =>
    setsProperty_unnumberedNodes members
  | .conditional _ ⟨members, _⟩ alternatives _ => by
    show (StylusToScss.setsProperty _ || StylusToScss.setsProperty _) = _
    rw [setsProperty_unnumberedNodes members, setsProperty_unnumberedNodes alternatives]
    rfl
  | .property _ ⟨_, _, _, _⟩ _ | .selector ⟨_, _⟩ | .binding _ _ _ _ _ | .expression ⟨_, _, _, _⟩
  | .call _ ⟨_, _⟩ _ | .arguments ⟨_, _⟩ | .params ⟨_, _⟩ | .binary _ _ _ _ | .unary _ _ _
  | .definition _ ⟨_, _⟩ ⟨_, _⟩ _ | .importRule _ _ | .ident _ _ _ _ | .literal _ | .measure _ _ _
  | .boolean _ _ | .color _ _ | .unsupported _ _ => rfl

theorem setsProperty_unnumberedNodes : ∀ nodes : List Node,
    setsProperty (unnumberedNodes nodes) = setsProperty nodes
  | [] => rfl
  | node :: rest => by
    show (node.unnumbered.setsProperty || setsProperty (unnumberedNodes rest)) = _
    rw [node.setsProperty_unnumbered, setsProperty_unnumberedNodes rest]
    rfl

end

theorem formOf_unnumbered (block : Block) : formOf block.unnumbered = formOf block := by
  unfold formOf Block.unnumbered
  rw [setsProperty_unnumberedNodes]

end StylusToScss
