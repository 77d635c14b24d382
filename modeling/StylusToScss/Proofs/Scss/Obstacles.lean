import StylusToScss.Proofs.Except
import StylusToScss.Scss.Conversion

/-!
# Where writing a tree fails

Whether a tree can be written does not depend on the names known, nor on what has been written
before. `Stylesheet.obstacles` lists, in the order of the walk, the places of a tree that stand in
the way, each with the failure that it gives; writing the tree fails with the first of them, and
succeeds if there is none (`Stylesheet.fails_convert`).
-/

namespace StylusToScss

variable {ε α β : Type}

/-! ## Failing with the first obstacle -/

/-- The step succeeds if there is no obstacle, and else fails with the first one. -/
def FailsWith (obstacles : List ε) (x : Except ε α) : Prop :=
  Yields (fun _ => obstacles = []) (obstacles.head? = some ·) x

namespace FailsWith

variable {first more : List ε} {x : Except ε α} {f : α → Except ε β}

theorem bind (h : FailsWith first x) (next : ∀ a, FailsWith more (f a)) :
    FailsWith (first ++ more) (x >>= f) := by
  cases x with
  | ok a =>
    rw [show first = [] from h]
    exact next a
  | error e =>
    show (first ++ more).head? = some e
    rw [List.head?_append, show first.head? = some e from h]
    rfl

/-- What comes behind the last obstacle does not fail. -/
theorem last (h : FailsWith first x) (next : ∀ a, FailsWith [] (f a)) :
    FailsWith first (x >>= f) := by
  have both := h.bind next
  rwa [List.append_nil] at both

theorem isOk_iff (h : FailsWith first x) : (∃ a, x = .ok a) ↔ first = [] := by
  cases x with
  | ok a => exact ⟨fun _ => h, fun _ => ⟨a, rfl⟩⟩
  | error e =>
    have some : first.head? = some e := h
    refine ⟨nofun, ?_⟩
    rintro rfl
    cases some

theorem eq_error_iff {e : ε} (h : FailsWith first x) : x = .error e ↔ first.head? = some e := by
  cases x with
  | ok a =>
    rw [show first = [] from h]
    exact ⟨nofun, nofun⟩
  | error e' =>
    rw [show first.head? = some e' from h]
    exact ⟨fun same => by cases same; rfl, fun same => by cases same; rfl⟩

end FailsWith

/-! ## Values -/

/-- What a construct without counterpart stands in the way of. -/
def Policy.obstacles (policy : Policy) (kind : String) (line : Nat) : List ConversionError :=
  match policy with
  | .strict => [.unsupported kind line]
  | .lenient => []

mutual

/-- What stands in the way of writing a node as a value. -/
def Node.valueObstacles (policy : Policy) : Node → List ConversionError
  | .expression ⟨nodes, _, _, _⟩ => valueObstacles policy nodes
  | .call _ ⟨nodes, _⟩ _ => valueObstacles policy nodes
  | .arguments ⟨nodes, _⟩ => valueObstacles policy nodes
  | .params ⟨nodes, _⟩ => valueObstacles policy nodes
  | .binding _ value _ _ _ => value.valueObstacles policy
  | .binary _ left right _ => left.valueObstacles policy ++ right.valueObstacles policy
  | .unary _ operand _ => operand.valueObstacles policy
  | .ident _ _ _ _ | .literal _ | .measure _ _ _ | .boolean _ _ | .color _ _ => []
  | .unsupported kind line => policy.obstacles kind line
  | node => [.malformed (.notValue node.kind) node.line]

/-- What stands in the way of writing the nodes as values. -/
def valueObstacles (policy : Policy) : List Node → List ConversionError
  | [] => []
  | node :: rest => node.valueObstacles policy ++ valueObstacles policy rest

end

theorem Node.valueObstacles_expression (policy : Policy) (expression : Expression) :
    (Node.expression expression).valueObstacles policy =
      StylusToScss.valueObstacles policy expression.nodes := by
  cases expression
  rfl

theorem fails_unsupported (policy : Policy) (kind : String) (line : Nat) :
    FailsWith (policy.obstacles kind line) (policy.unsupported kind line) := by
  cases policy
  · rfl
  · rfl

variable (view : View)

mutual

theorem Node.fails_value : ∀ node : Node,
    FailsWith (node.valueObstacles view.policy) (node.value view)
  | .expression ⟨nodes, _, _, _⟩ => (fails_values nodes).last fun _ => rfl
  | .call _ ⟨nodes, _⟩ _ => (fails_argumentValues nodes).last fun _ => rfl
  | .arguments ⟨nodes, _⟩ => (fails_argumentValues nodes).last fun _ => rfl
  | .params ⟨nodes, _⟩ => (fails_argumentValues nodes).last fun _ => rfl
  | .binding _ value _ _ _ => value.fails_value.last fun _ => rfl
  | .binary _ left right _ => left.fails_value.bind fun _ => right.fails_value.last fun _ => rfl
  | .unary _ operand _ => operand.fails_value.last fun _ => rfl
  | .unsupported kind line => fails_unsupported view.policy kind line
  | .ident _ _ _ _ | .literal _ | .measure _ _ _ | .boolean _ _ | .color _ _ => rfl
  | .importRule _ _ | .group _ _ | .selector _ | .block _ | .property _ _ _ | .conditional _ _ _ _
  | .loop _ _ _ _ _ | .definition _ _ _ _ => rfl

theorem fails_values : ∀ nodes : List Node,
    FailsWith (valueObstacles view.policy nodes) (values view nodes)
  | [] => rfl
  | node :: rest => node.fails_value.bind fun _ => (fails_values rest).last fun _ => rfl

theorem fails_argumentValues : ∀ nodes : List Node,
    FailsWith (valueObstacles view.policy nodes) (argumentValues view nodes)
  | [] => rfl
  | node :: rest => by
    have behind := fails_argumentValues rest
    have here := node.fails_value
    unfold argumentValues
    split
    · next none => cases none
    · next bare =>
      cases bare
      exact behind.last fun _ => rfl
    · next same =>
      cases same
      exact here.bind fun _ => behind.last fun _ => rfl

end

/-- A node that is no bare name is written as an argument just as elsewhere. -/
theorem argumentValues_cons {view : View} {node : Node} {rest : List Node}
    (other : ∀ name line, node ≠ .ident name false false line) :
    argumentValues view (node :: rest) = do
      let first ← node.value view
      return first :: (← argumentValues view rest) := by
  rw [argumentValues]
  exact other

theorem Expression.fails_value (expression : Expression) :
    FailsWith (valueObstacles view.policy expression.nodes) (expression.value view) := by
  cases expression
  exact (fails_values view _).last fun _ => rfl

theorem fails_segmentsValue (segments : List Node) :
    FailsWith (valueObstacles view.policy segments) (segmentsValue view segments) :=
  (fails_values view segments).last fun _ => rfl

/-- An item of a loop's source can be written exactly where a value can. -/
theorem fails_loopItem (node : Node) :
    FailsWith (node.valueObstacles view.policy) (loopItem view node) := by
  fun_induction loopItem view node with
  | case1 => exact rfl
  | case2 node _ _ ih =>
    show FailsWith (node.valueObstacles view.policy ++ []) _
    rw [List.append_nil]
    exact ih
  | case3 node => exact node.fails_value view

theorem fails_loopItems : ∀ nodes : List Node,
    FailsWith (valueObstacles view.policy nodes) (nodes.mapM (loopItem view))
  | [] => rfl
  | node :: rest => by
    rw [List.mapM_cons]
    exact (fails_loopItem view node).bind fun _ => (fails_loopItems rest).last fun _ => rfl

/-! ## Statements -/

/-- What stands in the way of writing a parameter. -/
def Node.parameterObstacles (policy : Policy) : Node → List ConversionError
  | .ident _ _ _ _ => []
  | .binding _ value _ _ _ => value.valueObstacles policy
  | node => [.malformed (.notParameter node.kind) node.line]

/-- What stands in the way of the line of a loop: a key beside a range, and its source. -/
def loopObstacles (policy : Policy) (key : Option String) (source : Expression) (line : Nat) :
    List ConversionError :=
  (if (range? source).isSome ∧ key.isSome then policy.obstacles "range loop key" line else []) ++
    valueObstacles policy source.nodes

mutual

/-- What stands in the way of writing a node as a statement. -/
def Node.statementObstacles (policy : Policy) : Node → List ConversionError
  | .importRule path line => if path.isEmpty then [.malformed .importWithoutPath line] else []
  | .group selectors ⟨nodes, line⟩ =>
    (if selectors.isEmpty then [.malformed .groupWithoutSelectors line] else []) ++
      selectors.flatMap (valueObstacles policy ·.segments) ++ statementObstacles policy nodes
  | .property segments value _ =>
    valueObstacles policy segments ++ valueObstacles policy value.nodes
  | .binding _ (.definition _ ⟨params, _⟩ ⟨nodes, _⟩ _) _ _ _ =>
    params.flatMap (Node.parameterObstacles policy) ++ statementObstacles policy nodes
  | .definition _ ⟨params, _⟩ ⟨nodes, _⟩ _ =>
    params.flatMap (Node.parameterObstacles policy) ++ statementObstacles policy nodes
  | .conditional condition ⟨nodes, _⟩ alternatives _ =>
    condition.valueObstacles policy ++ statementObstacles policy nodes ++
      alternativeObstacles policy alternatives
  | .loop _ key source ⟨nodes, _⟩ line =>
    loopObstacles policy key source line ++ statementObstacles policy nodes
  | .unsupported kind line => policy.obstacles kind line
  | .selector s => [.malformed (.notStatement (Node.selector s).kind) (Node.selector s).line]
  | .block b => [.malformed (.notStatement (Node.block b).kind) (Node.block b).line]
  | .arguments a => [.malformed (.notStatement (Node.arguments a).kind) (Node.arguments a).line]
  | .params p => [.malformed (.notStatement (Node.params p).kind) (Node.params p).line]
  | node => node.valueObstacles policy

/-- What stands in the way of writing the nodes as alternatives of a conditional. -/
def alternativeObstacles (policy : Policy) : List Node → List ConversionError
  | [] => []
  | .conditional condition ⟨nodes, _⟩ alternatives _ :: rest =>
    condition.valueObstacles policy ++ statementObstacles policy nodes ++
      alternativeObstacles policy alternatives ++ alternativeObstacles policy rest
  | .block ⟨nodes, _⟩ :: rest =>
    statementObstacles policy nodes ++ alternativeObstacles policy rest
  | node :: _ => [.malformed (.notAlternative node.kind) node.line]

/-- What stands in the way of writing the nodes as statements. -/
def statementObstacles (policy : Policy) : List Node → List ConversionError
  | [] => []
  | node :: rest => node.statementObstacles policy ++ statementObstacles policy rest

end

/-- What stands in the way of writing a tree. -/
def Stylesheet.obstacles (policy : Policy) (sheet : Stylesheet) : List ConversionError :=
  statementObstacles policy sheet.nodes

namespace Walk

/-- The walk succeeds if there is no obstacle, and else fails with the first one, whatever has come
before. -/
def FailsWith (obstacles : List ConversionError) (walk : Walk α) : Prop :=
  ∀ progress, StylusToScss.FailsWith obstacles (walk.run progress).1

variable {first more : List ConversionError} {walk : Walk α} {next : α → Walk β}

theorem fails_pure (a : α) : FailsWith [] (pure a : Walk α) := fun _ => rfl

theorem run_bind (walk : Walk α) (next : α → Walk β) (progress : Progress) :
    (walk >>= next).run progress = match walk.run progress with
      | (.ok a, after) => (next a).run after
      | (.error e, after) => (.error e, after) := by
  unfold ExceptT.run
  simp only [Bind.bind, ExceptT.bind, ExceptT.mk, StateT.bind, ExceptT.bindCont]
  cases walk progress with
  | mk result after => cases result <;> rfl

theorem FailsWith.bind (h : FailsWith first walk) (hn : ∀ a, FailsWith more (next a)) :
    FailsWith (first ++ more) (walk >>= next) := by
  intro progress
  have here := h progress
  rw [run_bind]
  generalize walk.run progress = result at here ⊢
  obtain ⟨e | a, after⟩ := result
  · show (first ++ more).head? = some e
    rw [List.head?_append, show first.head? = some e from here]
    rfl
  · rw [show first = [] from here]
    exact hn a after

/-- What comes behind the last obstacle does not fail. -/
theorem FailsWith.last (h : FailsWith first walk) (hn : ∀ a, FailsWith [] (next a)) :
    FailsWith first (walk >>= next) := by
  have both := h.bind hn
  rwa [List.append_nil] at both

theorem fails_malformed (shape : ShapeFault) (line : Nat) (more : List ConversionError) :
    FailsWith (.malformed shape line :: more) (malformed shape line : Walk α) :=
  fun _ => rfl

theorem fails_rename (f : Names → Names) : FailsWith [] (rename f) := fun _ => rfl

theorem fails_bind (name : String) : FailsWith [] (bind name) := fun _ => rfl

/-- A value adds its warnings to those of the walk, and changes nothing else. -/
theorem run_value (around : Surrounding) (write : View → Written Fragment) (progress : Progress) :
    (value around write).run progress =
      match write ⟨progress.names, around.within.isSome, around.policy⟩ with
      | .ok fragment =>
        (.ok fragment.text, { progress with warnings := progress.warnings ++ fragment.warnings })
      | .error e => (.error e, progress) := by
  unfold value
  rw [run_bind]
  show ((match write ⟨progress.names, around.within.isSome, around.policy⟩ with
    | .ok fragment => do
      set { progress with warnings := progress.warnings ++ fragment.warnings }
      return fragment.text
    | .error e => throw e : Walk String).run progress) = _
  cases write _ with
  | ok fragment => rfl
  | error e => rfl

/-- A value fails in a walk as it does by itself. -/
theorem fails_value {around : Surrounding} {write : View → Written Fragment}
    (h : ∀ view, view.policy = around.policy → StylusToScss.FailsWith first (write view)) :
    FailsWith first (value around write) := by
  intro progress
  have here := h ⟨progress.names, around.within.isSome, around.policy⟩ rfl
  rw [run_value]
  generalize write _ = outcome at here ⊢
  cases outcome with
  | ok fragment => exact here
  | error e => exact here

end Walk

variable (around : Surrounding)

theorem fails_nodeValue (node : Node) :
    Walk.FailsWith (node.valueObstacles around.policy)
      (Walk.value around fun view => node.value view) :=
  Walk.fails_value fun view policy => policy ▸ node.fails_value view

theorem fails_expressionValue (expression : Expression) :
    Walk.FailsWith (valueObstacles around.policy expression.nodes)
      (Walk.value around fun view => expression.value view) :=
  Walk.fails_value fun view policy => policy ▸ expression.fails_value view

theorem fails_segments (segments : List Node) :
    Walk.FailsWith (valueObstacles around.policy segments)
      (Walk.value around fun view => segmentsValue view segments) :=
  Walk.fails_value fun view policy => policy ▸ fails_segmentsValue view segments

theorem fails_importMarks (path : List Literal) (line : Nat) :
    Walk.FailsWith (if path.isEmpty then [.malformed .importWithoutPath line] else [])
      (importMarks path line) := by
  unfold importMarks
  split
  · exact Walk.fails_malformed _ line []
  · exact Walk.fails_pure _

/-- A property that binds a variable has nothing else as its value. -/
theorem nodes_of_shorthand? {value e : Expression} {name : String}
    (h : shorthand? value = some (name, e)) :
    ∃ interpolated lookup line,
      value.nodes = [.binding name (.expression e) interpolated lookup line] := by
  unfold shorthand? at h
  split at h <;> cases h
  exact ⟨_, _, _, rfl⟩

theorem fails_propertyMarks (segments : List Node) (value : Expression) (line : Nat) :
    Walk.FailsWith
      (valueObstacles around.policy segments ++ valueObstacles around.policy value.nodes)
      (propertyMarks around segments value line) := by
  unfold propertyMarks
  refine (fails_segments around segments).bind fun property => ?_
  split
  · next name e short =>
    have same :
        valueObstacles around.policy value.nodes = valueObstacles around.policy e.nodes := by
      obtain ⟨_, _, _, nodes⟩ := nodes_of_shorthand? short
      rw [nodes]
      exact (List.append_nil _).trans (Node.valueObstacles_expression _ e)
    rw [same]
    refine (fails_expressionValue around e).last fun text => ?_
    exact (Walk.fails_bind name).bind fun _ => (Walk.fails_rename _).bind fun _ => Walk.fails_pure _
  · refine (fails_expressionValue around value).last fun text => ?_
    exact (Walk.fails_rename _).bind fun _ => Walk.fails_pure _

theorem fails_assignmentMarks (name : String) (value : Node) (line : Nat) :
    Walk.FailsWith (value.valueObstacles around.policy)
      (assignmentMarks around name value line) := by
  unfold assignmentMarks
  refine (fails_nodeValue around value).last fun text => ?_
  exact (Walk.fails_bind name).bind fun _ => Walk.fails_pure _

theorem fails_expressionMarks (node : Node) :
    Walk.FailsWith (node.valueObstacles around.policy) (expressionMarks around node) :=
  (fails_nodeValue around node).last fun _ => Walk.fails_pure _

theorem fails_policy (kind : String) (line : Nat) :
    Walk.FailsWith (around.policy.obstacles kind line)
      (Walk.value around fun view => view.policy.unsupported kind line) :=
  Walk.fails_value fun view policy => policy ▸ fails_unsupported view.policy kind line

theorem fails_unsupportedMarks (kind : String) (line : Nat) :
    Walk.FailsWith (around.policy.obstacles kind line) (unsupportedMarks around kind line) :=
  (fails_policy around kind line).last fun _ => Walk.fails_pure _

theorem fails_selectorMarks (selectors : List Selector) :
    Walk.FailsWith (selectors.flatMap (valueObstacles around.policy ·.segments))
      (selectorMarks around selectors) := by
  induction selectors with
  | nil => exact Walk.fails_pure _
  | cons selector rest ih =>
    obtain ⟨segments, _⟩ := selector
    refine (fails_segments around segments).bind fun _ => ?_
    exact ih.last fun _ => Walk.fails_pure _

/-- The bounds of a range are all of a loop's source. -/
theorem nodes_of_range? {source : Expression} {left right : Node} {word : String}
    (h : range? source = some (left, word, right)) :
    ∃ op line, source.nodes = [.binary op left right line] := by
  have only {node : Node} (single : source.single? = some node) : source.nodes = [node] := by
    unfold Expression.single? at single
    split at single
    · next nodes =>
      cases single
      exact nodes
    · cases single
  unfold range? at h
  split at h
  · next single =>
    cases h
    exact ⟨_, _, only single⟩
  · next single =>
    cases h
    exact ⟨_, _, only single⟩
  · cases h

theorem valueObstacles_of_range? {policy : Policy} {source : Expression} {left right : Node}
    {word : String} (h : range? source = some (left, word, right)) :
    valueObstacles policy source.nodes =
      left.valueObstacles policy ++ right.valueObstacles policy := by
  obtain ⟨op, line, nodes⟩ := nodes_of_range? h
  rw [nodes]
  exact List.append_nil _

theorem fails_loopHead (item : String) (key : Option String) (source : Expression) (line : Nat) :
    Walk.FailsWith (loopObstacles around.policy key source line)
      (loopHead around item key source line) := by
  unfold loopHead loopObstacles
  refine (Walk.fails_bind item).bind fun _ => ?_
  cases range : range? source with
  | some bounds =>
    obtain ⟨left, word, right⟩ := bounds
    rw [valueObstacles_of_range? range]
    simp only [Option.isSome_some, true_and]
    have range (text : String → String → String) := (fails_nodeValue around left).bind fun first =>
      (fails_nodeValue around right).last fun last => Walk.fails_pure (text first last)
    split
    · exact (fails_policy around _ line).bind fun _ => range _
    · exact range _
  | none =>
    have each : Walk.FailsWith (valueObstacles around.policy source.nodes)
        (Walk.value around fun view => do
          return .join ", " (← source.nodes.mapM (loopItem view))) :=
      Walk.fails_value fun view policy =>
        policy ▸ (fails_loopItems view source.nodes).last fun _ => rfl
    cases key with
    | some key =>
      refine (Walk.fails_bind key).bind fun _ => (Walk.fails_pure _).bind fun names => ?_
      exact each.last fun _ => Walk.fails_pure _
    | none =>
      refine (Walk.fails_pure _).bind fun names => ?_
      exact each.last fun _ => Walk.fails_pure _

theorem fails_parameterTexts : ∀ params : List Node,
    Walk.FailsWith (params.flatMap (Node.parameterObstacles around.policy))
      (parameterTexts around params)
  | [] => Walk.fails_pure _
  | node :: rest => by
    have behind := fails_parameterTexts rest
    unfold parameterTexts
    split
    · next none => cases none
    · next same =>
      cases same
      exact (Walk.fails_bind _).bind fun _ => behind.last fun _ => Walk.fails_pure _
    · next value _ _ _ _ same =>
      cases same
      refine (Walk.fails_bind _).bind fun _ => ?_
      exact (fails_nodeValue around value).bind fun _ => behind.last fun _ => Walk.fails_pure _
    · next node _ other other' same =>
      cases same
      cases node with
      | ident name interpolated lookup line => exact (other _ _ _ _ rfl).elim
      | binding name value interpolated lookup line => exact (other' _ _ _ _ _ rfl).elim
      | _ => exact Walk.fails_malformed _ _ _

theorem fails_definitionMarks (name : String) (params : Arguments) (line : Nat)
    (form : DefinitionForm) {body : Walk (List Mark)} {more : List ConversionError}
    (h : Walk.FailsWith more body) :
    Walk.FailsWith (params.nodes.flatMap (Node.parameterObstacles around.policy) ++ more)
      (definitionMarks around name params line form body) := by
  unfold definitionMarks
  refine (fails_parameterTexts (around.inside form) params.nodes).bind fun texts => ?_
  exact h.last fun _ => Walk.fails_pure _

mutual

theorem Node.fails_statement (around : Surrounding) : ∀ node : Node,
    Walk.FailsWith (node.statementObstacles around.policy) (node.statement around)
  | .importRule path line => fails_importMarks path line
  | .group [] ⟨_, _⟩ => Walk.fails_malformed _ _ _
  | .group (⟨segments, _⟩ :: rest) ⟨nodes, _⟩ => by
    show Walk.FailsWith (valueObstacles around.policy segments ++
      rest.flatMap (valueObstacles around.policy ·.segments) ++
      statementObstacles around.policy nodes) _
    rw [List.append_assoc]
    refine (fails_segments around segments).bind fun first => ?_
    refine (fails_selectorMarks around rest).bind fun more => ?_
    exact (Block.fails_marks around ⟨nodes, _⟩).last fun _ => Walk.fails_pure _
  | .property segments value line => fails_propertyMarks around segments value line
  | .ident name interpolated lookup line =>
    fails_expressionMarks around (.ident name interpolated lookup line)
  | .binding name value _ _ line => by
    have assigned := fails_assignmentMarks around name value line
    cases value with
    | definition inner params b number =>
      obtain ⟨params, _⟩ := params
      obtain ⟨nodes, _⟩ := b
      exact fails_definitionMarks around _ _ _ _ (Block.fails_marks _ ⟨nodes, _⟩)
    | _ => exact assigned
  | .conditional condition ⟨nodes, _⟩ alternatives _ => by
    show Walk.FailsWith (_ ++ _ ++ _) _
    rw [List.append_assoc]
    refine (fails_nodeValue around condition).bind fun text => ?_
    refine (Block.fails_marks around ⟨nodes, _⟩).bind fun body => ?_
    exact (fails_alternativeMarks around alternatives).last fun _ => Walk.fails_pure _
  | .loop item key source ⟨nodes, _⟩ line =>
    (fails_loopHead around item key source line).bind fun _ =>
      (Block.fails_marks around ⟨nodes, _⟩).last fun _ => Walk.fails_pure _
  | .definition _ ⟨_, _⟩ ⟨nodes, _⟩ _ =>
    fails_definitionMarks around _ _ _ _ (Block.fails_marks _ ⟨nodes, _⟩)
  | .unsupported kind line => fails_unsupportedMarks around kind line
  | .expression e => fails_expressionMarks around (.expression e)
  | .call name arguments line => fails_expressionMarks around (.call name arguments line)
  | .binary op left right line => fails_expressionMarks around (.binary op left right line)
  | .unary op operand line => fails_expressionMarks around (.unary op operand line)
  | .literal l => fails_expressionMarks around (.literal l)
  | .measure value unit line => fails_expressionMarks around (.measure value unit line)
  | .boolean value line => fails_expressionMarks around (.boolean value line)
  | .color raw line => fails_expressionMarks around (.color raw line)
  | .selector s => Walk.fails_malformed _ _ []
  | .block b => Walk.fails_malformed _ _ []
  | .arguments a => Walk.fails_malformed _ _ []
  | .params p => Walk.fails_malformed _ _ []

theorem fails_alternativeMarks (around : Surrounding) : ∀ nodes : List Node,
    Walk.FailsWith (alternativeObstacles around.policy nodes) (alternativeMarks around nodes)
  | [] => Walk.fails_pure _
  | .conditional condition ⟨nodes, _⟩ alternatives _ :: rest => by
    show Walk.FailsWith (_ ++ _ ++ _ ++ _) _
    rw [List.append_assoc, List.append_assoc]
    refine (fails_nodeValue around condition).bind fun text => ?_
    refine (Block.fails_marks around ⟨nodes, _⟩).bind fun body => ?_
    refine (fails_alternativeMarks around alternatives).bind fun inner => ?_
    exact (fails_alternativeMarks around rest).last fun _ => Walk.fails_pure _
  | .block ⟨nodes, _⟩ :: rest =>
    (Block.fails_marks around ⟨nodes, _⟩).bind fun _ =>
      (fails_alternativeMarks around rest).last fun _ => Walk.fails_pure _
  | .importRule _ _ :: _ | .group _ _ :: _ | .selector _ :: _ | .property _ _ _ :: _
  | .ident _ _ _ _ :: _ | .binding _ _ _ _ _ :: _ | .expression _ :: _ | .call _ _ _ :: _
  | .arguments _ :: _ | .params _ :: _ | .binary _ _ _ _ :: _ | .unary _ _ _ :: _
  | .loop _ _ _ _ _ :: _ | .literal _ :: _ | .measure _ _ _ :: _ | .boolean _ _ :: _
  | .color _ _ :: _ | .definition _ _ _ _ :: _ | .unsupported _ _ :: _ =>
    Walk.fails_malformed _ _ _

theorem Block.fails_marks (around : Surrounding) : ∀ block : Block,
    Walk.FailsWith (statementObstacles around.policy block.nodes) (block.marks around)
  | ⟨nodes, _⟩ => (fails_statements around nodes).last fun _ => Walk.fails_pure _

theorem fails_statements (around : Surrounding) : ∀ nodes : List Node,
    Walk.FailsWith (statementObstacles around.policy nodes) (statements around nodes)
  | [] => Walk.fails_pure _
  | node :: rest =>
    (node.fails_statement around).bind fun _ =>
      (fails_statements around rest).last fun _ => Walk.fails_pure _

end

/-- Writing a tree fails exactly with the first obstacle. -/
theorem Stylesheet.fails_convert (options : Options) (sheet : Stylesheet) :
    FailsWith (sheet.obstacles options.policy) (sheet.convert options) := by
  have h := fails_statements ⟨options.policy, none⟩ sheet.nodes .start
  unfold Stylesheet.convert
  generalize (statements ⟨options.policy, none⟩ sheet.nodes).run .start = outcome at h
  obtain ⟨e | marks, progress⟩ := outcome
  · exact h
  · exact h

end StylusToScss
