import StylusToScss.Proofs.Scss.Obstacles
import StylusToScss.Proofs.Tree.Spelled

/-!
# Which names become variables

The walk over a tree remembers the names that have been bound, and so whether a name is a variable
depends on all that has been written before it. What the walk knows at a place are the binders of
the tree before that place (`Names.Knows`), so a tree with its names spelled out is written as the
tree itself (`Walk.Tracks`), if the law for their text is `nameText`. No other law does that for all
trees (`Stylesheet.convert_spelled`).
-/

namespace StylusToScss

variable {α β : Type}

/-! ## What is known -/

/-- The names known to be variables are those bound before, up to the dollar signs in front. -/
def Names.Knows (names : Names) (bound : List String) : Prop :=
  ∀ name, names.isVariable name = true ↔ ∃ other ∈ bound, bareName other = bareName name

namespace Names.Knows

theorem none : Names.none.Knows [] := by
  intro name
  simp [Names.none, isVariable]

theorem bind {names : Names} {bound : List String} (h : names.Knows bound) (name : String) :
    (names.bind name).Knows (bound ++ [name]) := by
  intro other
  rw [isVariable_bind, Bool.or_eq_true, h other, beq_iff_eq]
  constructor
  · rintro (same | ⟨earlier, mem, same⟩)
    · exact ⟨name, by simp, same.symm⟩
    · exact ⟨earlier, List.mem_append_left _ mem, same⟩
  · rintro ⟨earlier, mem, same⟩
    obtain mem | mem := List.mem_append.1 mem
    · exact .inr ⟨earlier, mem, same⟩
    · rw [List.mem_singleton.1 mem] at same
      exact .inl same.symm

theorem record {names : Names} {bound : List String} (h : names.Knows bound)
    (property value : String) : (names.record property value).Knows bound := h

end Names.Knows

/-! ## Values -/

section
variable {view : View} {bound : List String}

/-- A bare name in a value has the text of the law. -/
theorem View.resolve_bare (known : view.names.Knows bound) (name : String) :
    view.resolve name false false = nameText bound name := by
  unfold resolve nameText
  simp only [Bool.false_eq_true, if_false, known name]

mutual

theorem Node.value_spelled (known : view.names.Knows bound) : ∀ node : Node,
    (node.spelled nameText bound view.inDefinition).value view = node.value view
  | .expression ⟨nodes, _, _, _⟩ => by
    rw [Node.spelled, Node.value, Node.value, Expression.value, Expression.value,
      values_spelled known nodes]
  | .ident name false false line => by
    rw [Node.spelled, Node.value, View.resolve_bare known]
    rfl
  | .binding _ node _ _ _ => by
    rw [Node.spelled, Node.value, Node.value, node.value_spelled known]
  | .call _ ⟨nodes, _⟩ _ => by
    rw [Node.spelled, Node.value, Node.value, argumentValues_spelled known nodes]
  | .arguments ⟨nodes, _⟩ | .params ⟨nodes, _⟩ => by
    rw [Node.spelled, Node.value, Node.value, argumentValues_spelled known nodes]
  | .binary _ left right _ => by
    rw [Node.spelled, Node.value, Node.value, left.value_spelled known, right.value_spelled known]
  | .unary _ operand _ => by
    rw [Node.spelled, Node.value, Node.value, operand.value_spelled known,
      (keepsForms_spelled ..).isCompound]
  | .ident _ true _ _ | .ident _ false true _ | .literal _ | .measure _ _ _ | .boolean _ _
  | .color _ _ | .unsupported _ _ | .importRule _ _ | .group _ _ | .selector _ | .block _
  | .property _ _ _ | .conditional _ _ _ _ | .loop _ _ _ _ _ | .definition _ _ _ _ => rfl

theorem values_spelled (known : view.names.Knows bound) : ∀ nodes : List Node,
    values view (spelledValues nameText bound view.inDefinition nodes) = values view nodes
  | [] => rfl
  | node :: rest => by
    rw [spelledValues, values, values, node.value_spelled known, values_spelled known rest]

theorem argumentValues_spelled (known : view.names.Knows bound) : ∀ nodes : List Node,
    argumentValues view (spelledArguments nameText bound view.inDefinition nodes) =
      argumentValues view nodes
  | [] => rfl
  | node :: rest => by
    have behind := argumentValues_spelled known rest
    by_cases bare : ∃ name line, node = .ident name false false line
    · obtain ⟨name, line, rfl⟩ := bare
      rw [spelledArguments, argumentValues_cons (by nofun), argumentValues, behind,
        View.resolve_bare known]
      rfl
    · have other : ∀ name line, node ≠ .ident name false false line :=
        fun name line same => bare ⟨name, line, same⟩
      rw [spelledArguments, argumentValues_cons (node.spelled_ne_bare _ _ _),
        argumentValues_cons other, node.value_spelled known, behind]
      exact other

end

theorem Expression.value_spelled (known : view.names.Knows bound) (expression : Expression) :
    (expression.spelled nameText bound view.inDefinition).value view = expression.value view := by
  obtain ⟨nodes, isList, parenthesized, line⟩ := expression
  exact (Node.expression ⟨nodes, isList, parenthesized, line⟩).value_spelled known

theorem segmentsValue_spelled (known : view.names.Knows bound) (segments : List Node) :
    segmentsValue view (spelledValues nameText bound view.inDefinition segments) =
      segmentsValue view segments := by
  unfold segmentsValue
  rw [values_spelled known]

theorem loopItem_spelled (known : view.names.Knows bound) (node : Node) :
    loopItem view (node.spelledItem nameText bound view.inDefinition) = loopItem view node := by
  fun_induction Node.spelledItem nameText bound view.inDefinition node with
  | case1 => rfl
  | case2 node isList line ih => exact ih
  | case3 node bare single =>
    have same : loopItem view node = node.value view := by
      rw [loopItem]
      · exact bare
      · exact single
    rw [same, ← node.value_spelled known, loopItem]
    · exact node.spelled_ne_bare _ _ _
    · intro inner isList line same
      obtain ⟨_, _, _, rfl⟩ := (keepsForms_spelled ..).single_of same
      exact single _ _ _ rfl

end

/-! ## Steps of the walk -/

namespace Walk

variable {bound after last : List String} {walk walk' : Walk α}

/-- Where these names are bound, the second walk comes to what the first one comes to. Behind them,
if they do not fail, the names `after` are bound. -/
def Tracks (bound after : List String) (walk walk' : Walk α) : Prop :=
  ∀ progress, progress.names.Knows bound → walk'.run progress = walk.run progress ∧
    Yields (fun _ => (walk.run progress).2.names.Knows after) (fun _ => True) (walk.run progress).1

theorem tracks_pure (a : α) : Tracks bound bound (pure a) (pure a) :=
  fun _ known => ⟨rfl, known⟩

theorem tracks_malformed (shape : ShapeFault) (line : Nat) :
    Tracks bound after (malformed shape line : Walk α) (malformed shape line) :=
  fun _ _ => ⟨rfl, trivial⟩

theorem tracks_bind (name : String) : Tracks bound (bound ++ [name]) (bind name) (bind name) :=
  fun _ known => ⟨rfl, known.bind name⟩

theorem tracks_record (property value : String) :
    Tracks bound bound (rename (·.record property value)) (rename (·.record property value)) :=
  fun _ known => ⟨rfl, known.record property value⟩

theorem Tracks.bind {next next' : α → Walk β} (h : Tracks bound after walk walk')
    (hn : ∀ a, Tracks after last (next a) (next' a)) :
    Tracks bound last (walk >>= next) (walk' >>= next') := by
  intro progress known
  obtain ⟨same, here⟩ := h progress known
  rw [run_bind, run_bind, same]
  generalize walk.run progress = result at here ⊢
  obtain ⟨e | a, behind⟩ := result
  · exact ⟨rfl, trivial⟩
  · exact hn a behind here

theorem Tracks.unbound (h : Tracks bound bound walk walk') :
    Tracks bound (bound ++ []) walk walk' := by
  rwa [List.append_nil]

theorem tracks_value {around : Surrounding} {write write' : View → Written Fragment}
    (h : ∀ view, view.names.Knows bound → view.inDefinition = around.within.isSome →
      write' view = write view) :
    Tracks bound bound (value around write) (value around write') := by
  intro progress known
  rw [run_value, run_value, h _ known rfl]
  refine ⟨rfl, ?_⟩
  generalize write _ = outcome
  cases outcome with
  | error e => trivial
  | ok fragment => exact known

end Walk

open Walk

/-! ## Statements -/

section
variable (around : Surrounding) (bound : List String)

theorem tracks_nodeValue (node : Node) :
    Tracks bound bound (Walk.value around fun view => node.value view)
      (Walk.value around fun view =>
        (node.spelled nameText bound around.within.isSome).value view) :=
  tracks_value fun _ known inside => inside ▸ node.value_spelled known

theorem tracks_expressionValue (expression : Expression) :
    Tracks bound bound (Walk.value around fun view => expression.value view)
      (Walk.value around fun view =>
        (expression.spelled nameText bound around.within.isSome).value view) :=
  tracks_value fun _ known inside => inside ▸ expression.value_spelled known

theorem tracks_segmentsValue (segments : List Node) :
    Tracks bound bound (Walk.value around fun view => segmentsValue view segments)
      (Walk.value around fun view =>
        segmentsValue view (spelledValues nameText bound around.within.isSome segments)) :=
  tracks_value fun _ known inside => inside ▸ segmentsValue_spelled known segments

theorem tracks_policy (kind : String) (line : Nat) :
    Tracks bound bound (Walk.value around fun view => view.policy.unsupported kind line)
      (Walk.value around fun view => view.policy.unsupported kind line) :=
  tracks_value fun _ _ _ => rfl

theorem tracks_propertyMarks (segments : List Node) (value : Expression) (line : Nat) :
    Tracks bound (bound ++ (Node.property segments value line).binders)
      (propertyMarks around segments value line)
      (propertyMarks around (spelledValues nameText bound around.within.isSome segments)
        (value.spelled nameText bound around.within.isSome) line) := by
  unfold propertyMarks
  refine (tracks_segmentsValue around bound segments).bind fun property => ?_
  rw [(keepsForms_spelled ..).shorthand?, Node.binders]
  cases shorthand? value with
  | none =>
    refine (tracks_expressionValue around bound value).bind fun text => ?_
    rw [Option.map_none, Option.toList_none, List.append_nil]
    exact (tracks_record _ _).bind fun _ => tracks_pure _
  | some short =>
    refine (tracks_expressionValue around bound short.2).bind fun text => ?_
    refine (tracks_bind short.1).bind fun _ => ?_
    exact (tracks_record _ _).bind fun _ => tracks_pure _

theorem tracks_assignmentMarks (name : String) (value : Node) (line : Nat) :
    Tracks bound (bound ++ [name]) (assignmentMarks around name value line)
      (assignmentMarks around name (value.spelled nameText bound around.within.isSome) line) := by
  unfold assignmentMarks
  refine (tracks_nodeValue around bound value).bind fun text => ?_
  exact (tracks_bind name).bind fun _ => tracks_pure _

theorem tracks_expressionMarks (node : Node) :
    Tracks bound bound (expressionMarks around node)
      (expressionMarks around (node.spelled nameText bound around.within.isSome)) := by
  unfold expressionMarks expressionWord
  rw [(keepsForms_spelled ..).isCall, node.line_spelled]
  exact (tracks_nodeValue around bound node).bind fun text => tracks_pure _

theorem tracks_selectorMarks (selectors : List Selector) :
    Tracks bound bound (selectorMarks around selectors)
      (selectorMarks around
        (spelledSelectors nameText bound around.within.isSome selectors)) := by
  induction selectors with
  | nil => exact tracks_pure _
  | cons selector rest ih =>
    obtain ⟨segments, line⟩ := selector
    refine (tracks_segmentsValue around bound segments).bind fun text => ?_
    exact ih.bind fun more => tracks_pure _

theorem tracks_items (nodes : List Node) :
    Tracks bound bound
      (Walk.value around fun view => do return .join ", " (← nodes.mapM (loopItem view)))
      (Walk.value around fun view => do
        return .join ", " (← (nodes.map
          (Node.spelledItem nameText bound around.within.isSome)).mapM (loopItem view))) := by
  refine tracks_value fun view known inside => ?_
  rw [← inside, List.mapM_map]
  simp only [Function.comp_def, loopItem_spelled known]

theorem tracks_loopHead (item : String) (key : Option String) (source : Expression) (line : Nat) :
    Tracks bound (bound ++ loopBinders item key source) (loopHead around item key source line)
      (loopHead around item key (source.spelledSource nameText
        (bound ++ loopBinders item key source) around.within.isSome) line) := by
  unfold loopHead
  rw [range?_spelled]
  refine (tracks_bind item).bind fun _ => ?_
  cases range : range? source with
  | some bounds =>
    obtain ⟨left, word, right⟩ := bounds
    have binders : loopBinders item key source = [item] := by simp [loopBinders, range]
    rw [binders]
    have bounds (text : String → String → String) :
        Tracks (bound ++ [item]) (bound ++ [item])
          (do
            let first ← Walk.value around fun view => left.value view
            let last ← Walk.value around fun view => right.value view
            return text first last)
          (do
            let first ← Walk.value around fun view =>
              (left.spelled nameText (bound ++ [item]) around.within.isSome).value view
            let last ← Walk.value around fun view =>
              (right.spelled nameText (bound ++ [item]) around.within.isSome).value view
            return text first last) :=
      (tracks_nodeValue around _ left).bind fun _ =>
        (tracks_nodeValue around _ right).bind fun _ => tracks_pure _
    cases key with
    | none => exact bounds _
    | some key => exact (tracks_policy around _ _ line).bind fun _ => bounds _
  | none =>
    have binders : bound ++ loopBinders item key source = bound ++ [item] ++ key.toList := by
      simp [loopBinders, range]
    have items := tracks_items around (bound ++ loopBinders item key source) source.nodes
    rw [binders] at items ⊢
    cases key with
    | none =>
      rw [Option.toList_none, List.append_nil] at items ⊢
      exact (tracks_pure _).bind fun names => items.bind fun _ => tracks_pure _
    | some key =>
      refine (tracks_bind key).bind fun _ => (tracks_pure _).bind fun names => ?_
      exact items.bind fun _ => tracks_pure _

end

theorem tracks_parameterTexts (around : Surrounding) (inside : around.within.isSome = true) :
    ∀ (bound : List String) (params : List Node),
      Tracks bound (bound ++ parameterBinders params) (parameterTexts around params)
        (parameterTexts around (spelledParameters nameText bound params))
  | bound, [] => by
    rw [parameterBinders, List.append_nil]
    exact tracks_pure _
  | bound, .ident name _ _ _ :: rest => by
    rw [parameterBinders, List.append_cons]
    refine (tracks_bind _).bind fun _ => ?_
    exact (tracks_parameterTexts around inside _ rest).bind fun _ => tracks_pure _
  | bound, .binding name value _ _ _ :: rest => by
    have default := tracks_nodeValue around (bound ++ [withoutDots name]) value
    rw [inside] at default
    rw [parameterBinders, List.append_cons]
    refine (tracks_bind _).bind fun _ => default.bind fun _ => ?_
    exact (tracks_parameterTexts around inside _ rest).bind fun _ => tracks_pure _
  | _, .group _ _ :: _ | _, .selector _ :: _ | _, .block _ :: _ | _, .property _ _ _ :: _
  | _, .expression _ :: _ | _, .call _ _ _ :: _ | _, .arguments _ :: _ | _, .params _ :: _
  | _, .binary _ _ _ _ :: _ | _, .unary _ _ _ :: _ | _, .conditional _ _ _ _ :: _
  | _, .loop _ _ _ _ _ :: _ | _, .definition _ _ _ _ :: _ | _, .importRule _ _ :: _
  | _, .literal _ :: _ | _, .measure _ _ _ :: _ | _, .boolean _ _ :: _ | _, .color _ _ :: _
  | _, .unsupported _ _ :: _ => tracks_malformed _ _

/-- A name whose value is no definition is an assignment, also with its value spelled out. -/
theorem tracks_assignment (around : Surrounding) (bound : List String) {name : String}
    {value : Node} {interpolated lookup : Bool} {line : Nat}
    (plain : ∀ other params block start, value ≠ .definition other params block start) :
    Tracks bound (bound ++ (Node.binding name value interpolated lookup line).binders)
      ((Node.binding name value interpolated lookup line).statement around)
      (((Node.binding name value interpolated lookup line).spelledStatement nameText bound
        around.within.isSome).statement around) := by
  have marks := tracks_assignmentMarks around bound name value line
  cases value with
  | definition => exact absurd rfl (plain _ _ _ _)
  | expression e => cases e; exact marks
  | ident _ interpolated lookup => cases interpolated <;> cases lookup <;> exact marks
  | call _ arguments | arguments arguments | params arguments => cases arguments; exact marks
  | _ => exact marks

theorem formOf_spelled (law : List String → String → String) (bound : List String)
    (inDefinition : Bool) (members : List Node) (line : Nat) :
    formOf ⟨spelledStatements law bound inDefinition members, line⟩ = formOf ⟨members, line⟩ := by
  unfold formOf
  rw [setsProperty_spelledStatements]

theorem tracks_definition (around : Surrounding) {bound : List String} (name : String)
    (params members : List Node) (start blockLine line : Nat)
    (h : Tracks (bound ++ parameterBinders params)
      (bound ++ parameterBinders params ++ allBinders members)
      (Block.marks (around.inside (formOf ⟨members, blockLine⟩)) ⟨members, blockLine⟩)
      (Block.marks (around.inside (formOf ⟨members, blockLine⟩))
        ⟨spelledStatements nameText (bound ++ parameterBinders params) true members, blockLine⟩)) :
    Tracks bound (bound ++ (parameterBinders params ++ allBinders members))
      ((Node.definition name ⟨params, start⟩ ⟨members, blockLine⟩ line).statement around)
      (((Node.definition name ⟨params, start⟩ ⟨members, blockLine⟩ line).spelledStatement nameText
        bound around.within.isSome).statement around) := by
  rw [Node.spelledStatement, Node.statement, Node.statement, formOf_spelled, ← List.append_assoc]
  unfold definitionMarks
  refine (tracks_parameterTexts (around.inside _) rfl bound params).bind fun texts => ?_
  exact h.bind fun body => tracks_pure _

mutual

theorem Node.tracks_statement (around : Surrounding) (bound : List String) : ∀ node : Node,
    Tracks bound (bound ++ node.binders) (node.statement around)
      ((node.spelledStatement nameText bound around.within.isSome).statement around)
  | .importRule path line => by
    refine Tracks.unbound ?_
    show Tracks bound bound (importMarks path line) (importMarks path line)
    unfold importMarks
    split
    · exact tracks_malformed _ _
    · exact tracks_pure _
  | .group [] ⟨_, _⟩ => tracks_malformed _ _
  | .group (⟨segments, _⟩ :: rest) ⟨members, line⟩ => by
    refine (tracks_segmentsValue around bound segments).bind fun first => ?_
    refine (tracks_selectorMarks around bound rest).bind fun more => ?_
    exact (tracks_block around bound members line).bind fun body => tracks_pure _
  | .property segments value line => tracks_propertyMarks around bound segments value line
  | .binding _ (.definition name ⟨params, start⟩ ⟨members, blockLine⟩ line) _ _ _
  | .definition name ⟨params, start⟩ ⟨members, blockLine⟩ line =>
    tracks_definition around name params members start blockLine line
      (tracks_block _ _ members blockLine)
  | .conditional condition ⟨members, blockLine⟩ alternatives line => by
    rw [Node.binders, ← List.append_assoc]
    refine (tracks_nodeValue around bound condition).bind fun text => ?_
    refine (tracks_block around bound members blockLine).bind fun body => ?_
    exact (tracks_alternativeMarks around _ alternatives).bind fun more => tracks_pure _
  | .loop item key source ⟨members, blockLine⟩ line => by
    rw [Node.binders, ← List.append_assoc]
    refine (tracks_loopHead around bound item key source line).bind fun head => ?_
    exact (tracks_block around _ members blockLine).bind fun body => tracks_pure _
  | .unsupported kind line =>
    Tracks.unbound ((tracks_policy around bound kind line).bind fun _ => tracks_pure _)
  | .binding _ (.importRule _ _) _ _ _ | .binding _ (.group _ _) _ _ _
  | .binding _ (.selector _) _ _ _ | .binding _ (.block _) _ _ _
  | .binding _ (.property _ _ _) _ _ _ | .binding _ (.ident _ _ _ _) _ _ _
  | .binding _ (.binding _ _ _ _ _) _ _ _ | .binding _ (.expression _) _ _ _
  | .binding _ (.call _ _ _) _ _ _ | .binding _ (.arguments _) _ _ _
  | .binding _ (.params _) _ _ _ | .binding _ (.binary _ _ _ _) _ _ _
  | .binding _ (.unary _ _ _) _ _ _ | .binding _ (.conditional _ _ _ _) _ _ _
  | .binding _ (.loop _ _ _ _ _) _ _ _ | .binding _ (.literal _) _ _ _
  | .binding _ (.measure _ _ _) _ _ _ | .binding _ (.boolean _ _) _ _ _
  | .binding _ (.color _ _) _ _ _ | .binding _ (.unsupported _ _) _ _ _ =>
    tracks_assignment around bound nofun
  | .ident _ false false _ | .ident _ true _ _ | .ident _ false true _ | .expression ⟨_, _, _, _⟩
  | .call _ ⟨_, _⟩ _ | .binary _ _ _ _ | .unary _ _ _ | .literal _ | .measure _ _ _ | .boolean _ _
  | .color _ _ => Tracks.unbound (tracks_expressionMarks around bound _)
  | .selector _ | .block _ | .arguments ⟨_, _⟩ | .params ⟨_, _⟩ => tracks_malformed _ _

theorem tracks_alternativeMarks (around : Surrounding) (bound : List String) :
    ∀ nodes : List Node, Tracks bound (bound ++ allBinders nodes) (alternativeMarks around nodes)
      (alternativeMarks around (spelledAlternatives nameText bound around.within.isSome nodes))
  | [] => Tracks.unbound (tracks_pure _)
  | .conditional condition ⟨members, blockLine⟩ alternatives line :: rest => by
    have others := tracks_alternativeMarks around
      (bound ++ (allBinders members ++ allBinders alternatives)) rest
    rw [allBinders, Node.binders, ← List.append_assoc]
    refine (tracks_nodeValue around bound condition).bind fun text => ?_
    refine (tracks_block around bound members blockLine).bind fun body => ?_
    have inner := tracks_alternativeMarks around (bound ++ allBinders members) alternatives
    rw [List.append_assoc] at inner
    exact inner.bind fun nested => others.bind fun more => tracks_pure _
  | .block ⟨members, line⟩ :: rest => by
    rw [allBinders, Node.binders, ← List.append_assoc]
    refine (tracks_block around bound members line).bind fun body => ?_
    exact (tracks_alternativeMarks around _ rest).bind fun more => tracks_pure _
  | .importRule _ _ :: _ | .group _ _ :: _ | .selector _ :: _ | .property _ _ _ :: _
  | .ident _ _ _ _ :: _ | .binding _ _ _ _ _ :: _ | .expression _ :: _ | .call _ _ _ :: _
  | .arguments _ :: _ | .params _ :: _ | .binary _ _ _ _ :: _ | .unary _ _ _ :: _
  | .loop _ _ _ _ _ :: _ | .literal _ :: _ | .measure _ _ _ :: _ | .boolean _ _ :: _
  | .color _ _ :: _ | .definition _ _ _ _ :: _ | .unsupported _ _ :: _ => tracks_malformed _ _

theorem tracks_block (around : Surrounding) (bound : List String) (members : List Node)
    (line : Nat) :
    Tracks bound (bound ++ allBinders members) (Block.marks around ⟨members, line⟩)
      (Block.marks around
        ⟨spelledStatements nameText bound around.within.isSome members, line⟩) :=
  (tracks_statements around bound members).bind fun _ => tracks_pure _

theorem tracks_statements (around : Surrounding) (bound : List String) :
    ∀ nodes : List Node, Tracks bound (bound ++ allBinders nodes) (statements around nodes)
      (statements around (spelledStatements nameText bound around.within.isSome nodes))
  | [] => Tracks.unbound (tracks_pure _)
  | node :: rest => by
    rw [allBinders, ← List.append_assoc]
    refine (node.tracks_statement around bound).bind fun first => ?_
    exact (tracks_statements around _ rest).bind fun more => tracks_pure _

end

/-! ## Stylesheets -/

/-- A name is no variable yet in the value that it is bound to. As an item of a loop it is one in
any case, among the arguments of a call only if it has been bound. -/
example : (Stylesheet.spelled nameText ⟨[.bound "$a" (.name "a" 1) 1,
    .loop "b" (some "c") (.sequence [.name "d" 2, .call "f" ⟨[.name "a" 2, .name "d" 2], 2⟩ 2] 2)
      ⟨[.name "c" 3], 2⟩ 2]⟩).nodes =
    [.bound "$a" (.plain "a" 1) 1,
      .loop "b" (some "c")
        (.sequence [.plain "$d" 2, .call "f" ⟨[.plain "$a" 2, .plain "d" 2], 2⟩ 2] 2)
        ⟨[.plain "$c" 3], 2⟩ 2] := by
  rfl

end StylusToScss
