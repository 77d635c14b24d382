import StylusToScss.Proofs.Tree.Keeping

/-!
# A tree with its names spelled out

Whether a name in a value becomes a variable depends on the names bound before it. The binders of a
tree are known from the tree alone, in the order in which they take effect (`Node.binders`), and so
is what is bound at each of its names. `Stylesheet.spelled` puts an unquoted literal in the place of
each name that stands in a value, with the text that a law gives for it and for the names bound
before it. A name that stands directly among the arguments of a call in a definition, or is an item
of a loop's source, is spelled out as a variable whatever is bound.

* `nameText` is the law that conversions follow.
-/

namespace StylusToScss

/-- The text of a name where these names have been bound before: a variable if it has the dollar
sign or has been bound. -/
def nameText (bound : List String) (name : String) : String :=
  if name.toList.head? = some '$' ∨ ∃ other ∈ bound, bareName other = bareName name then
    reference name
  else name

/-! ## Binders -/

/-- The names that the parameters of a definition bind, each before its default. -/
def parameterBinders : List Node → List String
  | [] => []
  | .ident name _ _ _ :: rest => withoutDots name :: parameterBinders rest
  | .binding name _ _ _ _ :: rest => withoutDots name :: parameterBinders rest
  | _ :: _ => []

/-- The names that a loop binds before its source: its item, and its key if it has one and the
source is no range. -/
def loopBinders (item : String) (key : Option String) (source : Expression) : List String :=
  item :: if (range? source).isSome then [] else key.toList

mutual

/-- The names that a statement or an alternative binds, in the order in which they take effect. A
name whose value is a definition is not bound. -/
def Node.binders : Node → List String
  | .property _ value _ => ((shorthand? value).map (·.1)).toList
  | .binding _ (.definition _ params ⟨members, _⟩ _) _ _ _ =>
    parameterBinders params.nodes ++ allBinders members
  | .binding name _ _ _ _ => [name]
  | .definition _ params ⟨members, _⟩ _ => parameterBinders params.nodes ++ allBinders members
  | .loop item key source ⟨members, _⟩ _ => loopBinders item key source ++ allBinders members
  | .conditional _ ⟨members, _⟩ alternatives _ => allBinders members ++ allBinders alternatives
  | .group _ ⟨members, _⟩ => allBinders members
  | .block ⟨members, _⟩ => allBinders members
  | _ => []

/-- The names that statements bind, one after the other. -/
def allBinders : List Node → List String
  | [] => []
  | node :: rest => node.binders ++ allBinders rest

end

/-! ## Spelling out -/

section
variable (law : List String → String → String)

mutual

/-- A value with its names spelled out. -/
def Node.spelled (bound : List String) (inDefinition : Bool) : Node → Node
  | .expression ⟨nodes, isList, parenthesized, line⟩ =>
    .expression ⟨spelledValues bound inDefinition nodes, isList, parenthesized, line⟩
  | .ident name false false line => .plain (law bound name) line
  | .binding name value interpolated lookup line =>
    .binding name (value.spelled bound inDefinition) interpolated lookup line
  | .call name ⟨nodes, start⟩ line =>
    .call name ⟨spelledArguments bound inDefinition nodes, start⟩ line
  | .arguments ⟨nodes, line⟩ => .arguments ⟨spelledArguments bound inDefinition nodes, line⟩
  | .params ⟨nodes, line⟩ => .params ⟨spelledArguments bound inDefinition nodes, line⟩
  | .binary op left right line =>
    .binary op (left.spelled bound inDefinition) (right.spelled bound inDefinition) line
  | .unary op operand line => .unary op (operand.spelled bound inDefinition) line
  | node => node

/-- Values with their names spelled out. -/
def spelledValues (bound : List String) (inDefinition : Bool) : List Node → List Node
  | [] => []
  | node :: rest => node.spelled bound inDefinition :: spelledValues bound inDefinition rest

/-- Arguments with their names spelled out. Directly among the arguments in a definition a name is a
variable. -/
def spelledArguments (bound : List String) (inDefinition : Bool) : List Node → List Node
  | [] => []
  | .ident name false false line :: rest =>
    .plain (if inDefinition then reference name else law bound name) line ::
      spelledArguments bound inDefinition rest
  | node :: rest => node.spelled bound inDefinition :: spelledArguments bound inDefinition rest

end

/-- An expression with its names spelled out. -/
def Expression.spelled (bound : List String) (inDefinition : Bool) (expression : Expression) :
    Expression :=
  { expression with nodes := spelledValues law bound inDefinition expression.nodes }

/-- An item of a loop's source with its names spelled out. If it is a name, also as all of an
expression without parentheses, it is a variable. The only item of a range is an operation, whose
bounds are values. -/
def Node.spelledItem (bound : List String) (inDefinition : Bool) : Node → Node
  | .ident name false false line => .plain (reference name) line
  | .expression ⟨[node], isList, false, line⟩ =>
    .expression ⟨[node.spelledItem bound inDefinition], isList, false, line⟩
  | node => node.spelled law bound inDefinition

/-- The source of a loop with its names spelled out. -/
def Expression.spelledSource (bound : List String) (inDefinition : Bool) (source : Expression) :
    Expression :=
  { source with nodes := source.nodes.map (Node.spelledItem law bound inDefinition) }

/-- Parameters with the names in their defaults spelled out. -/
def spelledParameters (bound : List String) : List Node → List Node
  | .ident name interpolated lookup line :: rest =>
    .ident name interpolated lookup line :: spelledParameters (bound ++ [withoutDots name]) rest
  | .binding name value interpolated lookup line :: rest =>
    .binding name (value.spelled law (bound ++ [withoutDots name]) true) interpolated lookup line ::
      spelledParameters (bound ++ [withoutDots name]) rest
  | nodes => nodes

/-- Selectors with the names among their segments spelled out. -/
def spelledSelectors (bound : List String) (inDefinition : Bool) (selectors : List Selector) :
    List Selector :=
  selectors.map fun selector =>
    { selector with segments := spelledValues law bound inDefinition selector.segments }

mutual

/-- A statement with its names spelled out. -/
def Node.spelledStatement (bound : List String) (inDefinition : Bool) : Node → Node
  | .group selectors ⟨members, line⟩ =>
    .group (spelledSelectors law bound inDefinition selectors)
      ⟨spelledStatements bound inDefinition members, line⟩
  | .property segments value line =>
    .property (spelledValues law bound inDefinition segments)
      (value.spelled law bound inDefinition) line
  | .binding other (.definition name ⟨params, start⟩ ⟨members, blockLine⟩ line) interpolated lookup
      line' =>
    .binding other (.definition name ⟨spelledParameters law bound params, start⟩
      ⟨spelledStatements (bound ++ parameterBinders params) true members, blockLine⟩ line)
      interpolated lookup line'
  | .definition name ⟨params, start⟩ ⟨members, blockLine⟩ line =>
    .definition name ⟨spelledParameters law bound params, start⟩
      ⟨spelledStatements (bound ++ parameterBinders params) true members, blockLine⟩ line
  | .loop item key source ⟨members, blockLine⟩ line =>
    .loop item key (source.spelledSource law (bound ++ loopBinders item key source) inDefinition)
      ⟨spelledStatements (bound ++ loopBinders item key source) inDefinition members, blockLine⟩
      line
  | .conditional condition ⟨members, blockLine⟩ alternatives line =>
    .conditional (condition.spelled law bound inDefinition)
      ⟨spelledStatements bound inDefinition members, blockLine⟩
      (spelledAlternatives (bound ++ allBinders members) inDefinition alternatives) line
  | node => node.spelled law bound inDefinition

/-- The alternatives of a conditional with their names spelled out. -/
def spelledAlternatives (bound : List String) (inDefinition : Bool) : List Node → List Node
  | .conditional condition ⟨members, blockLine⟩ alternatives line :: rest =>
    .conditional (condition.spelled law bound inDefinition)
        ⟨spelledStatements bound inDefinition members, blockLine⟩
        (spelledAlternatives (bound ++ allBinders members) inDefinition alternatives) line ::
      spelledAlternatives (bound ++ (allBinders members ++ allBinders alternatives)) inDefinition
        rest
  | .block ⟨members, line⟩ :: rest =>
    .block ⟨spelledStatements bound inDefinition members, line⟩ ::
      spelledAlternatives (bound ++ allBinders members) inDefinition rest
  | nodes => nodes

/-- Statements with their names spelled out. -/
def spelledStatements (bound : List String) (inDefinition : Bool) : List Node → List Node
  | [] => []
  | node :: rest =>
    node.spelledStatement bound inDefinition ::
      spelledStatements (bound ++ node.binders) inDefinition rest

end

/-- A stylesheet with its names spelled out. -/
def Stylesheet.spelled (sheet : Stylesheet) : Stylesheet :=
  ⟨spelledStatements law [] false sheet.nodes⟩

end

/-! ## What spelling out has no part in -/

section
variable (law : List String → String → String) (bound : List String) (inDefinition : Bool)

theorem Node.line_spelled (node : Node) :
    (node.spelled law bound inDefinition).line = node.line := by
  unfold spelled
  split <;> rfl

/-- No bare name stays one where a name is spelled out. -/
theorem Node.spelled_ne_bare (node : Node) (name : String) (line : Nat) :
    node.spelled law bound inDefinition ≠ .ident name false false line := by
  unfold spelled
  split
  case h_9 bare _ _ _ _ _ _ => exact bare name line
  all_goals nofun

theorem spelledValues_eq_map (nodes : List Node) : spelledValues law bound inDefinition nodes =
    nodes.map (Node.spelled law bound inDefinition) := by
  induction nodes with
  | nil => rfl
  | cons node rest ih => rw [spelledValues, ih, List.map_cons]

theorem keepsForms_spelled : KeepsForms (Node.spelled law bound inDefinition)
    (Expression.spelled law bound inDefinition) where
  kept node := by
    cases node with
    | expression e => cases e; exact .expression _
    | binding => exact .binding
    | call _ arguments => cases arguments; exact .call
    | binary => exact .binary
    | ident _ interpolated lookup =>
      cases interpolated <;> cases lookup <;> exact .other rfl rfl
    | arguments arguments | params arguments => cases arguments; exact .other rfl rfl
    | _ => exact .other rfl rfl
  nodes e := spelledValues_eq_map law bound inDefinition e.nodes
  parenthesized _ := rfl

theorem range?_spelled (source : Expression) :
    range? (source.spelledSource law bound inDefinition) = (range? source).map
      fun (left, word, right) =>
        (left.spelled law bound inDefinition, word, right.spelled law bound inDefinition) := by
  obtain ⟨nodes, isList, parenthesized, number⟩ := source
  match nodes with
  | [] => rfl
  | [.binary op left right line] =>
    by_cases inclusive : op = ".."
    · subst inclusive; rfl
    by_cases exclusive : op = "..."
    · subst exclusive; rfl
    simp [range?, Expression.single?, Expression.spelledSource, Node.spelledItem, Node.spelled,
      inclusive, exclusive]
  | [.expression ⟨[], _, _, _⟩] | [.expression ⟨_ :: _ :: _, _, _, _⟩] => rfl
  | [.expression ⟨[_], _, parenthesized, _⟩] => cases parenthesized <;> rfl
  | [.ident _ interpolated lookup _] => cases interpolated <;> cases lookup <;> rfl
  | [.group _ _] | [.selector _] | [.block _] | [.property _ _ _] | [.binding _ _ _ _ _]
  | [.call _ ⟨_, _⟩ _] | [.arguments ⟨_, _⟩] | [.params ⟨_, _⟩] | [.unary _ _ _]
  | [.conditional _ _ _ _] | [.loop _ _ _ _ _] | [.definition _ _ _ _] | [.importRule _ _]
  | [.literal _] | [.measure _ _ _] | [.boolean _ _] | [.color _ _] | [.unsupported _ _] => rfl
  | _ :: _ :: _ => rfl

end

mutual

theorem Node.setsProperty_spelled (law : List String → String → String) (bound : List String)
    (inDefinition : Bool) : ∀ node : Node,
    (node.spelledStatement law bound inDefinition).setsProperty = node.setsProperty
  | .group _ ⟨members, _⟩ => setsProperty_spelledStatements law _ _ members
  | .loop _ _ _ ⟨members, _⟩ _ => setsProperty_spelledStatements law _ _ members
  | .conditional _ ⟨members, _⟩ alternatives _ => by
    show (StylusToScss.setsProperty _ || StylusToScss.setsProperty _) = _
    rw [setsProperty_spelledStatements law _ _ members,
      setsProperty_spelledAlternatives law _ _ alternatives]
    rfl
  | .binding _ value _ _ _ => by
    cases value with
    | definition _ params block => cases params; cases block; rfl
    | _ => rfl
  | .ident _ interpolated lookup _ => by cases interpolated <;> cases lookup <;> rfl
  | .property _ _ _ | .selector _ | .block _ | .expression ⟨_, _, _, _⟩ | .call _ ⟨_, _⟩ _
  | .arguments ⟨_, _⟩ | .params ⟨_, _⟩ | .binary _ _ _ _ | .unary _ _ _
  | .definition _ ⟨_, _⟩ ⟨_, _⟩ _ | .importRule _ _ | .literal _ | .measure _ _ _ | .boolean _ _
  | .color _ _ | .unsupported _ _ => rfl

theorem setsProperty_spelledAlternatives (law : List String → String → String)
    (bound : List String) (inDefinition : Bool) : ∀ nodes : List Node,
    setsProperty (spelledAlternatives law bound inDefinition nodes) = setsProperty nodes
  | [] => rfl
  | .conditional _ ⟨members, _⟩ alternatives _ :: rest => by
    show ((setsProperty _ || setsProperty _) || setsProperty _) = _
    rw [setsProperty_spelledStatements law _ _ members,
      setsProperty_spelledAlternatives law _ _ alternatives,
      setsProperty_spelledAlternatives law _ _ rest]
    rfl
  | .block ⟨members, _⟩ :: rest => by
    show (setsProperty _ || setsProperty _) = _
    rw [setsProperty_spelledStatements law _ _ members,
      setsProperty_spelledAlternatives law _ _ rest]
    rfl
  | .importRule _ _ :: _ | .group _ _ :: _ | .selector _ :: _ | .property _ _ _ :: _
  | .ident _ _ _ _ :: _ | .binding _ _ _ _ _ :: _ | .expression _ :: _ | .call _ _ _ :: _
  | .arguments _ :: _ | .params _ :: _ | .binary _ _ _ _ :: _ | .unary _ _ _ :: _
  | .loop _ _ _ _ _ :: _ | .literal _ :: _ | .measure _ _ _ :: _ | .boolean _ _ :: _
  | .color _ _ :: _ | .definition _ _ _ _ :: _ | .unsupported _ _ :: _ => rfl

theorem setsProperty_spelledStatements (law : List String → String → String)
    (bound : List String) (inDefinition : Bool) : ∀ nodes : List Node,
    setsProperty (spelledStatements law bound inDefinition nodes) = setsProperty nodes
  | [] => rfl
  | node :: rest => by
    show (Node.setsProperty _ || setsProperty _) = _
    rw [node.setsProperty_spelled law, setsProperty_spelledStatements law _ _ rest]
    rfl

end

end StylusToScss
