import StylusToScss.Proofs.Scss.Obstacles
import StylusToScss.Scss.Emitter

/-!
# The discipline of the emitter

Rendering a statement may fail anywhere in its blocks and definitions. Whoever has gone a level
deeper or entered a definition comes back first, so whatever is rendered, and however it ends, the
emitter is left where it stood. Rendering a value changes nothing at all.

* `Emit.runFrom_value`: a value is rendered as `Node.value` writes it, from a state that stays.
* `Emitter.Kept` is what holds of the state behind a step, `Emit.Disciplined` holds of the steps
  that keep it, and steps in sequence keep it if each does.
* `Emit.disciplined_visit` follows the tree, `Emit.discipline` says it of every node and state.
-/

namespace StylusToScss

namespace Emit

/-! ## Values -/

section
variable (emitter : Emitter)

theorem runFrom_unsupported (kind : String) (line : Nat) :
    runFrom (unsupported kind line) emitter =
      ((emitter.policy.unsupported kind line).map (·.text), emitter) := by
  unfold unsupported
  rw [runFrom_get]
  cases emitter.policy <;> rfl

mutual

/-- A value is rendered as `Node.value` writes it, and the state stays as it is. -/
theorem runFrom_value : ∀ node : Node,
    runFrom (value node) emitter = ((node.value emitter.view).map (·.text), emitter)
  | .expression e => by
    rw [value, Node.value]
    exact runFrom_expression e
  | .ident .. | .literal _ | .measure .. | .boolean .. | .color .. => rfl
  | .binding name node _ _ _ => by
    rw [value, Node.value, runFrom_bind, runFrom_value node]
    cases node.value emitter.view <;> rfl
  | .call name ⟨nodes, _⟩ _ => by
    rw [value, Node.value, runFrom_bind, runFrom_arguments nodes]
    cases argumentValues emitter.view nodes <;> rfl
  | .arguments ⟨nodes, _⟩ => by
    rw [value, Node.value, runFrom_bind, runFrom_arguments nodes]
    cases argumentValues emitter.view nodes <;> rfl
  | .params ⟨nodes, _⟩ => by
    rw [value, Node.value, runFrom_bind, runFrom_arguments nodes]
    cases argumentValues emitter.view nodes <;> rfl
  | .binary op left right _ => by
    rw [value, Node.value, runFrom_bind, runFrom_value left]
    cases left.value emitter.view with
    | error e => rfl
    | ok first =>
      simp only [Except.map]
      rw [runFrom_bind, runFrom_value right]
      cases right.value emitter.view with
      | error e => rfl
      | ok second =>
        show (Except.ok (first.text ++ " " ++ outputOperator op ++ " " ++ second.text), emitter) =
          (.ok (first.text ++ (" " ++ outputOperator op ++ " ") ++ second.text), emitter)
        simp only [String.append_assoc]
  | .unary op operand _ => by
    rw [value, Node.value, runFrom_bind, runFrom_value operand]
    cases operand.value emitter.view <;> rfl
  | .unsupported kind line => runFrom_unsupported emitter kind line
  | .importRule .. | .group .. | .selector _ | .block _ | .property .. | .conditional .. | .loop ..
  | .definition .. => rfl

theorem runFrom_expression : ∀ e : Expression,
    runFrom (expression e) emitter = ((e.value emitter.view).map (·.text), emitter)
  | ⟨nodes, isList, parenthesized, _⟩ => by
    rw [expression, Expression.value, runFrom_bind, runFrom_values nodes]
    cases StylusToScss.values emitter.view nodes with
    | error e => rfl
    | ok fragments => cases parenthesized <;> rfl

theorem runFrom_values : ∀ nodes : List Node,
    runFrom (values nodes) emitter =
      ((StylusToScss.values emitter.view nodes).map (·.map (·.text)), emitter)
  | [] => rfl
  | node :: rest => by
    rw [values, StylusToScss.values, runFrom_bind, runFrom_value node]
    cases node.value emitter.view with
    | error e => rfl
    | ok first =>
      simp only [Except.map]
      rw [runFrom_bind, runFrom_values rest]
      cases StylusToScss.values emitter.view rest <;> rfl

theorem runFrom_arguments : ∀ nodes : List Node,
    runFrom (arguments nodes) emitter =
      ((argumentValues emitter.view nodes).map (·.map (·.text)), emitter)
  | [] => rfl
  | node :: rest => by
    rw [arguments, runFrom_get, runFrom_bind]
    by_cases plain : ∃ name line, node = .ident name false false line
    · obtain ⟨name, line, rfl⟩ := plain
      have first : runFrom (argument emitter.inDefinition (.ident name false false line)
            (value (.ident name false false line))) emitter =
          (.ok (if emitter.inDefinition then reference name
            else emitter.view.resolve name false false), emitter) := by
        cases emitter.inDefinition <;> rfl
      rw [first]
      simp only
      rw [runFrom_bind, runFrom_arguments rest, argumentValues]
      cases argumentValues emitter.view rest <;> rfl
    · have other : ∀ name line, node ≠ .ident name false false line := by
        rintro name line rfl
        exact plain ⟨name, line, rfl⟩
      have first : argument emitter.inDefinition node (value node) = value node := by
        unfold argument
        split
        · exact absurd rfl (other _ _)
        · rfl
      rw [first, runFrom_value node, argumentValues_cons other]
      cases node.value emitter.view with
      | error e => rfl
      | ok fragment =>
        simp only [Except.map]
        rw [runFrom_bind, runFrom_arguments rest]
        cases argumentValues emitter.view rest <;> rfl

end

theorem runFrom_item (node : Node) :
    runFrom (item node) emitter = ((loopItem emitter.view node).map (·.text), emitter) := by
  fun_induction loopItem emitter.view node with
  | case1 => rfl
  | case2 node _ _ ih =>
    rw [item]
    exact ih
  | case3 node bare single =>
    rw [item]
    · exact runFrom_value emitter node
    · exact bare
    · exact single

theorem runFrom_items (nodes : List Node) :
    runFrom (items nodes) emitter =
      ((nodes.mapM (loopItem emitter.view)).map (·.map (·.text)), emitter) := by
  induction nodes with
  | nil => rfl
  | cons node rest ih =>
    rw [items, runFrom_bind, runFrom_item, List.mapM_cons]
    cases loopItem emitter.view node with
    | error e => rfl
    | ok first =>
      simp only [Except.map]
      rw [runFrom_bind, ih]
      cases rest.mapM (loopItem emitter.view) <;> rfl

theorem runFrom_loopSource (nodes : List Node) :
    runFrom (loopSource nodes) emitter =
      ((do return Fragment.join ", " (← nodes.mapM (loopItem emitter.view)) : Written _).map
        (·.text), emitter) := by
  rw [loopSource, runFrom_bind, runFrom_items]
  cases nodes.mapM (loopItem emitter.view) <;> rfl

theorem runFrom_segments (nodes : List Node) :
    runFrom (segments nodes) emitter =
      ((segmentsValue emitter.view nodes).map (·.text), emitter) := by
  rw [segments, segmentsValue, runFrom_bind, runFrom_values]
  cases StylusToScss.values emitter.view nodes <;> rfl

end

/-! ## What a step keeps -/

end Emit

/-- What holds of the state behind a step, whether it gives a text or fails. The definition around
the statement and the depth are what they were, the line has not gone back, and the names known have
only grown: the latest of them stand in front. -/
structure Emitter.Kept (before after : Emitter) : Prop where
  depth : after.layout.depth = before.layout.depth
  inDefinition : after.inDefinition = before.inDefinition
  returnWord : after.returnWord = before.returnWord
  policy : after.policy = before.policy
  line : before.layout.line ≤ after.layout.line
  bound : ∀ name, before.names.isVariable name = true → after.names.isVariable name = true
  properties : before.names.properties <:+ after.names.properties
  values : before.names.values <:+ after.names.values

namespace Emitter.Kept

variable {first second third : Emitter}

theorem refl (emitter : Emitter) : emitter.Kept emitter :=
  ⟨rfl, rfl, rfl, rfl, Nat.le_refl _, fun _ h => h, List.suffix_refl _, List.suffix_refl _⟩

theorem trans (front : first.Kept second) (back : second.Kept third) : first.Kept third where
  depth := back.depth.trans front.depth
  inDefinition := back.inDefinition.trans front.inDefinition
  returnWord := back.returnWord.trans front.returnWord
  policy := back.policy.trans front.policy
  line := Nat.le_trans front.line back.line
  bound name h := back.bound name (front.bound name h)
  properties := front.properties.trans back.properties
  values := front.values.trans back.values

end Emitter.Kept

namespace Emit

variable {α β : Type}

/-- From every state, a step keeps what is to be kept. -/
def Disciplined (step : Emit α) : Prop :=
  ∀ before : Emitter, before.Kept (runFrom step before).2

theorem disciplined_pure (a : α) : Disciplined (pure a : Emit α) := fun before => .refl before

theorem disciplined_malformed (shape : ShapeFault) (line : Nat) :
    Disciplined (malformed shape line : Emit α) := fun before => .refl before

theorem disciplined_get : Disciplined (get : Emit Emitter) := fun before => .refl before

theorem Disciplined.bind {step : Emit α} {next : α → Emit β} (first : Disciplined step)
    (second : ∀ a, Disciplined (next a)) : Disciplined (step >>= next) := by
  intro before
  have front := first before
  rw [runFrom_bind]
  cases reached : runFrom step before with
  | mk outcome after =>
    rw [reached] at front
    cases outcome with
    | ok a => exact front.trans (second a after)
    | error e => exact front

/-- A step that leaves the state as it is. -/
theorem disciplined_of_still {step : Emit α} (still : ∀ before, (runFrom step before).2 = before) :
    Disciplined step := by
  intro before
  rw [still before]
  exact .refl before

theorem disciplined_value (node : Node) : Disciplined (value node) :=
  disciplined_of_still fun before => congrArg Prod.snd (runFrom_value before node)

theorem disciplined_expression (e : Expression) : Disciplined (expression e) :=
  disciplined_of_still fun before => congrArg Prod.snd (runFrom_expression before e)

theorem disciplined_segments (nodes : List Node) : Disciplined (segments nodes) :=
  disciplined_of_still fun before => congrArg Prod.snd (runFrom_segments before nodes)

theorem disciplined_loopSource (nodes : List Node) : Disciplined (loopSource nodes) :=
  disciplined_of_still fun before => congrArg Prod.snd (runFrom_loopSource before nodes)

theorem disciplined_unsupported (kind : String) (line : Nat) :
    Disciplined (unsupported kind line) :=
  disciplined_of_still fun before => congrArg Prod.snd (runFrom_unsupported before kind line)

/-- A mark that opens or closes no block moves the layout on within its depth. -/
theorem disciplined_place {mark : Mark} (level : ∀ layout, (mark.after layout).depth = layout.depth)
    (onward : ∀ layout, layout.line ≤ (mark.after layout).line) : Disciplined (place mark) := by
  intro before
  rw [runFrom_place]
  exact { Emitter.Kept.refl before with
    depth := level before.layout
    line := onward before.layout }

theorem disciplined_statement (line : Nat) : Disciplined (place (.statement line)) :=
  disciplined_place (fun _ => rfl) fun _ => Nat.le_max_left _ _

theorem disciplined_selector (line : Nat) : Disciplined (place (.selector line)) :=
  disciplined_place (fun _ => rfl) fun _ => Nat.le_max_left _ _

theorem disciplined_clause (line : Nat) : Disciplined (place (.clause line)) :=
  disciplined_place (fun _ => rfl) fun _ => Nat.le_max_left _ _

theorem disciplined_sameStatement : Disciplined (place .sameStatement) :=
  disciplined_place (fun _ => rfl) fun _ => Nat.le_refl _

theorem disciplined_bind (name : String) : Disciplined (rename (·.bind name)) := by
  intro before
  rw [runFrom_rename]
  refine { Emitter.Kept.refl before with bound := fun other known => ?_ }
  rw [Names.isVariable_bind, known, Bool.or_true]

theorem disciplined_record (property text : String) :
    Disciplined (rename (·.record property text)) := by
  intro before
  rw [runFrom_rename]
  exact { Emitter.Kept.refl before with
    properties := List.suffix_cons _ _
    values := List.suffix_cons _ _ }

theorem disciplined_importRule (path : List Literal) (line : Nat) :
    Disciplined (importRule path line) := by
  unfold importRule
  split
  · exact disciplined_malformed _ _
  · exact (disciplined_statement line).bind fun lead => disciplined_pure _

theorem disciplined_property (name : List Node) (node : Expression) (line : Nat) :
    Disciplined (property name node line) := by
  unfold property
  refine (disciplined_statement line).bind fun lead => ?_
  refine (disciplined_segments name).bind fun property => ?_
  split
  · next declared e _ =>
    refine (disciplined_expression e).bind fun text => ?_
    refine (disciplined_bind declared).bind fun _ => ?_
    refine (disciplined_record property _).bind fun _ => ?_
    exact disciplined_sameStatement.bind fun indentation => disciplined_pure _
  · refine (disciplined_expression node).bind fun text => ?_
    exact (disciplined_record property text).bind fun _ => disciplined_pure _

theorem disciplined_assignment (name : String) (node : Node) (line : Nat) :
    Disciplined (assignment name node line) := by
  refine (disciplined_statement line).bind fun lead => ?_
  refine (disciplined_value node).bind fun text => ?_
  exact (disciplined_bind name).bind fun _ => disciplined_pure _

theorem disciplined_expressionStatement (node : Node) :
    Disciplined (expressionStatement node) := by
  refine (disciplined_statement node.line).bind fun lead => ?_
  refine (disciplined_value node).bind fun text => ?_
  exact disciplined_get.bind fun emitter => disciplined_pure _

theorem disciplined_selectors (rest : List Selector) : Disciplined (selectors rest) := by
  induction rest with
  | nil => exact disciplined_pure _
  | cons selector rest ih =>
    obtain ⟨nodes, line⟩ := selector
    refine (disciplined_selector line).bind fun gap => ?_
    refine (disciplined_segments nodes).bind fun text => ?_
    exact ih.bind fun more => disciplined_pure _

theorem disciplined_loopHead (name : String) (key : Option String) (source : Expression)
    (line : Nat) : Disciplined (loopHead name key source line) := by
  unfold loopHead
  refine (disciplined_bind name).bind fun _ => ?_
  split
  · next left word right _ =>
    have bounds : Disciplined (do
        let first ← value left
        let last ← value right
        return "@for " ++ reference name ++ " from " ++ first ++ " " ++ word ++ " " ++ last) := by
      refine (disciplined_value left).bind fun first => ?_
      exact (disciplined_value right).bind fun last => disciplined_pure _
    split
    · exact (disciplined_unsupported _ line).bind fun _ => bounds
    · exact bounds
  · have each (names : String) : Disciplined (do
        let text ← loopSource source.nodes
        return "@each " ++ names ++ " in " ++ text) :=
      (disciplined_loopSource source.nodes).bind fun text => disciplined_pure _
    split
    · next key =>
      refine (disciplined_bind key).bind fun _ => ?_
      exact (disciplined_pure _).bind each
    · exact (disciplined_pure _).bind each

theorem disciplined_parameters (params : List Node) : Disciplined (parameters params) := by
  induction params with
  | nil => exact disciplined_pure _
  | cons node rest ih =>
    cases node with
    | ident name =>
      refine (disciplined_bind (withoutDots name)).bind fun _ => ?_
      exact ih.bind fun texts => disciplined_pure _
    | binding name node =>
      refine (disciplined_bind (withoutDots name)).bind fun _ => ?_
      refine (disciplined_value node).bind fun text => ?_
      exact ih.bind fun texts => disciplined_pure _
    | _ => exact disciplined_malformed _ _

/-- The depth behind a block is the one before it, whatever becomes of the body. -/
theorem disciplined_enclosed {body : Emit String} (within : Disciplined body) :
    Disciplined (enclosed body) := by
  intro before
  have inner := within { before with layout := Mark.opening.after before.layout }
  rw [runFrom_enclosed]
  exact { inner with depth := congrArg (· - 1) inner.depth }

/-- What a definition sets is what it was behind it, whatever becomes of its interior. -/
theorem disciplined_definition (name : String) (params : List Node) (line : Nat)
    (form : DefinitionForm) {block : Emit String} (within : Disciplined block) :
    Disciplined (definition name params line form block) := by
  intro before
  have interior : Disciplined (interior params block) := by
    refine (disciplined_parameters params).bind fun texts => ?_
    exact within.bind fun text => disciplined_pure _
  have lead := disciplined_statement line before
  have inner := interior (before.entering line form)
  rw [runFrom_definition]
  exact { inner with
    inDefinition := rfl
    returnWord := rfl
    line := Nat.le_trans lead.line inner.line }

mutual

/-- What rendering a statement keeps. -/
theorem disciplined_visit : ∀ node : Node, Disciplined (visit node)
  | .importRule path line => disciplined_importRule path line
  | .group [] b => disciplined_malformed _ _
  | .group (⟨nodes, line⟩ :: rest) b => by
    refine (disciplined_statement line).bind fun lead => ?_
    refine (disciplined_segments nodes).bind fun first => ?_
    refine (disciplined_selectors rest).bind fun more => ?_
    exact (disciplined_block b).bind fun body => disciplined_pure _
  | .property name node line => disciplined_property name node line
  | .ident name interpolated lookup line =>
    disciplined_expressionStatement (.ident name interpolated lookup line)
  | .binding name node _ _ line => by
    have assigned := disciplined_assignment name node line
    cases node with
    | definition name params b line => exact disciplined_definition _ _ _ _ (disciplined_block b)
    | _ => exact assigned
  | .conditional condition b others line => by
    refine (disciplined_statement line).bind fun lead => ?_
    refine (disciplined_value condition).bind fun text => ?_
    refine (disciplined_block b).bind fun body => ?_
    exact (disciplined_alternatives others).bind fun more => disciplined_pure _
  | .loop name key source b line => by
    refine (disciplined_statement line).bind fun lead => ?_
    refine (disciplined_loopHead name key source line).bind fun head => ?_
    exact (disciplined_block b).bind fun body => disciplined_pure _
  | .definition name params b line => disciplined_definition _ _ _ _ (disciplined_block b)
  | .unsupported kind line => disciplined_unsupported kind line
  | .expression e => disciplined_expressionStatement (.expression e)
  | .call name arguments line => disciplined_expressionStatement (.call name arguments line)
  | .binary op left right line => disciplined_expressionStatement (.binary op left right line)
  | .unary op operand line => disciplined_expressionStatement (.unary op operand line)
  | .literal l => disciplined_expressionStatement (.literal l)
  | .measure value unit line => disciplined_expressionStatement (.measure value unit line)
  | .boolean value line => disciplined_expressionStatement (.boolean value line)
  | .color raw line => disciplined_expressionStatement (.color raw line)
  | .selector _ | .block _ | .arguments _ | .params _ => disciplined_malformed _ _

theorem disciplined_alternatives : ∀ nodes : List Node, Disciplined (alternatives nodes)
  | [] => disciplined_pure _
  | node :: rest => by
    cases node with
    | conditional condition b others line =>
      refine (disciplined_clause line).bind fun _ => ?_
      refine (disciplined_value condition).bind fun text => ?_
      refine (disciplined_block b).bind fun body => ?_
      refine (disciplined_alternatives others).bind fun inner => ?_
      exact (disciplined_alternatives rest).bind fun more => disciplined_pure _
    | block b =>
      refine (disciplined_clause b.line).bind fun _ => ?_
      refine (disciplined_block b).bind fun body => ?_
      exact (disciplined_alternatives rest).bind fun more => disciplined_pure _
    | _ => exact disciplined_malformed _ _

theorem disciplined_block : ∀ b : Block, Disciplined (block b)
  | ⟨nodes, _⟩ => disciplined_enclosed (disciplined_statements nodes)

theorem disciplined_statements : ∀ nodes : List Node, Disciplined (statements nodes)
  | [] => disciplined_pure _
  | node :: rest => by
    refine (disciplined_visit node).bind fun first => ?_
    exact (disciplined_statements rest).bind fun more => disciplined_pure _

end

/-- Behind a statement, rendered or failed, the emitter stands where it stood: at its depth and in
its definition, on a line no earlier, with all the names it knew. Behind a value it is as it was. -/
theorem discipline (before : Emitter) (node : Node) :
    before.Kept (runFrom (visit node) before).2 ∧
      (runFrom (visit node) before).2.names.properties.length =
        (runFrom (visit node) before).2.names.values.length ∧
      (runFrom (value node) before).2 = before :=
  ⟨disciplined_visit node before, Names.length_properties _,
    congrArg Prod.snd (runFrom_value before node)⟩

end Emit
end StylusToScss
