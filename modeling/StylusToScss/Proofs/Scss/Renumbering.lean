import StylusToScss.Proofs.Scss.Placement
import StylusToScss.Proofs.Tree.Unnumbered
import StylusToScss.Proofs.WhiteSpace

/-!
# What line numbers change

Writing a tree without its line numbers goes the same way as writing the tree: the walk comes to the
same marks, the same names, warnings and failures, but for the lines in them (`Walk.Renumbers`). The
lines of marks come into the text only as line feeds, where there is white space in any case. So
trees that differ in their line numbers only give texts that differ in their white space only
(`Stylesheet.convert_renumbered`).
-/

namespace StylusToScss

variable {α β γ δ : Type}

/-! ## Taking line numbers off what the walk gives -/

/-- The mark without its line. -/
def Mark.unnumbered : Mark → Mark
  | .statement _ => .statement 0
  | .selector _ => .selector 0
  | .clause _ => .clause 0
  | mark => mark

/-- The failure without its line. -/
def ConversionError.unnumbered : ConversionError → ConversionError
  | .unsupported kind _ => .unsupported kind 0
  | .malformed shape _ => .malformed shape 0
  | failure => failure

/-- The warning without its line. -/
def Warning.unnumbered (warning : Warning) : Warning := { warning with line := 0 }

/-- The text, with its warnings without their lines. -/
def Fragment.unnumbered (fragment : Fragment) : Fragment :=
  { fragment with warnings := fragment.warnings.map Warning.unnumbered }

/-- The walk as far as it has come, with its warnings without their lines. -/
def Progress.unnumbered (progress : Progress) : Progress :=
  { progress with warnings := progress.warnings.map Warning.unnumbered }

theorem Fragment.join_unnumbered (separator : String) (fragments : List Fragment) :
    join separator (fragments.map unnumbered) = (join separator fragments).unnumbered := by
  simp [join, unnumbered, List.map_flatMap, List.flatMap_map, Function.comp_def]

/-! ## Outcomes -/

/-- The second step comes to what the first one comes to, mapped, or to the same failure without its
line. -/
def Renumbers (f : α → β) (x : Written α) (y : Written β) : Prop :=
  y = match x with
    | .ok a => .ok (f a)
    | .error e => .error e.unnumbered

namespace Renumbers

variable {f : α → β} {g : γ → δ} {x : Written α} {y : Written β}

theorem bind {next : α → Written γ} {next' : β → Written δ} (h : Renumbers f x y)
    (hn : ∀ a, Renumbers g (next a) (next' (f a))) : Renumbers g (x >>= next) (y >>= next') := by
  cases x with
  | ok a =>
    rw [show y = .ok (f a) from h]
    exact hn a
  | error e =>
    rw [show y = .error e.unnumbered from h]
    rfl

end Renumbers

/-! ## Values -/

theorem renumbers_unsupported (policy : Policy) (kind : String) (line : Nat) :
    Renumbers Fragment.unnumbered (policy.unsupported kind line) (policy.unsupported kind 0) := by
  cases policy
  · rfl
  · rfl

theorem renumbers_misplaced (node : Node) :
    Renumbers Fragment.unnumbered (misplacedInValue node) (misplacedInValue node.unnumbered) := by
  unfold misplacedInValue
  rw [node.kind_unnumbered, node.line_unnumbered]
  rfl

theorem renumbers_join (separator : String) (fragments : List Fragment) :
    Renumbers Fragment.unnumbered (.ok (.join separator fragments))
      (.ok (.join separator (fragments.map Fragment.unnumbered))) :=
  congrArg Except.ok (Fragment.join_unnumbered separator fragments)

variable (view : View)

mutual

theorem Node.renumbers_value : ∀ node : Node,
    Renumbers Fragment.unnumbered (node.value view) (node.unnumbered.value view)
  | .expression ⟨nodes, isList, parenthesized, _⟩ => by
    refine (renumbers_values nodes).bind fun fragments => ?_
    rw [Fragment.join_unnumbered]
    cases parenthesized
    · rfl
    · rfl
  | .call _ ⟨nodes, _⟩ _ => by
    refine (renumbers_argumentValues nodes).bind fun fragments => ?_
    rw [Fragment.join_unnumbered]
    rfl
  | .arguments ⟨nodes, _⟩ | .params ⟨nodes, _⟩ =>
    (renumbers_argumentValues nodes).bind fun fragments => renumbers_join _ fragments
  | .binding _ value _ _ _ => value.renumbers_value.bind fun _ => rfl
  | .binary _ left right _ => left.renumbers_value.bind fun first =>
    right.renumbers_value.bind fun last => renumbers_join _ [first, last]
  | .unary op operand _ => by
    refine operand.renumbers_value.bind fun fragment => ?_
    rw [keepsForms_unnumbered.isCompound]
    rfl
  | .unsupported kind line => renumbers_unsupported view.policy kind line
  | .ident _ _ _ _ | .literal _ | .measure _ _ _ | .boolean _ _ | .color _ _ => rfl
  | .group selectors ⟨members, number⟩ => renumbers_misplaced (.group selectors ⟨members, number⟩)
  | .importRule _ _ | .selector ⟨_, _⟩ | .block ⟨_, _⟩ | .property _ ⟨_, _, _, _⟩ _
  | .conditional _ ⟨_, _⟩ _ _ | .loop _ _ ⟨_, _, _, _⟩ ⟨_, _⟩ _
  | .definition _ ⟨_, _⟩ ⟨_, _⟩ _ => rfl

theorem renumbers_values : ∀ nodes : List Node,
    Renumbers (List.map Fragment.unnumbered) (values view nodes)
      (values view (unnumberedNodes nodes))
  | [] => rfl
  | node :: rest => node.renumbers_value.bind fun _ => (renumbers_values rest).bind fun _ => rfl

theorem renumbers_argumentValues : ∀ nodes : List Node,
    Renumbers (List.map Fragment.unnumbered) (argumentValues view nodes)
      (argumentValues view (unnumberedNodes nodes))
  | [] => rfl
  | node :: rest => by
    have behind := renumbers_argumentValues rest
    by_cases bare : ∃ name line, node = .ident name false false line
    · obtain ⟨name, line, rfl⟩ := bare
      exact behind.bind fun _ => rfl
    · have other : ∀ name line, node ≠ .ident name false false line :=
        fun name line same => bare ⟨name, line, same⟩
      have other' : ∀ name line, node.unnumbered ≠ .ident name false false line := by
        intro name line same
        obtain ⟨number, same⟩ := Node.bare_of_unnumbered same
        exact other name number same
      rw [unnumberedNodes, argumentValues_cons other, argumentValues_cons other']
      exact node.renumbers_value.bind fun _ => behind.bind fun _ => rfl

end

theorem Expression.renumbers_value (expression : Expression) :
    Renumbers Fragment.unnumbered (expression.value view) (expression.unnumbered.value view) := by
  obtain ⟨nodes, isList, parenthesized, line⟩ := expression
  exact (Node.expression ⟨nodes, isList, parenthesized, line⟩).renumbers_value view

theorem renumbers_segments (segments : List Node) :
    Renumbers Fragment.unnumbered (segmentsValue view segments)
      (segmentsValue view (unnumberedNodes segments)) :=
  (renumbers_values view segments).bind fun fragments => renumbers_join _ fragments

theorem renumbers_loopItem (node : Node) :
    Renumbers Fragment.unnumbered (loopItem view node) (loopItem view node.unnumbered) := by
  fun_induction loopItem view node with
  | case1 => rfl
  | case2 node _ _ ih => exact ih
  | case3 node bare single =>
    have same : loopItem view node.unnumbered = node.unnumbered.value view := by
      rw [loopItem]
      · intro name line same
        obtain ⟨number, same⟩ := Node.bare_of_unnumbered same
        exact bare name number same
      · intro inner isList number same
        obtain ⟨_, _, _, rfl⟩ := keepsForms_unnumbered.single_of same
        exact single _ _ _ rfl
    rw [same]
    exact node.renumbers_value view

theorem renumbers_loopItems : ∀ nodes : List Node,
    Renumbers (List.map Fragment.unnumbered) (nodes.mapM (loopItem view))
      ((unnumberedNodes nodes).mapM (loopItem view))
  | [] => rfl
  | node :: rest => by
    rw [unnumberedNodes, List.mapM_cons, List.mapM_cons]
    exact (renumbers_loopItem view node).bind fun _ => (renumbers_loopItems rest).bind fun _ => rfl

/-! ## Walks -/

namespace Walk

variable {f : α → β} {g : γ → δ} {walk : Walk α} {walk' : Walk β}

/-- With its warnings without their lines, the second walk comes to what the first one comes to. -/
def Renumbers (f : α → β) (walk : Walk α) (walk' : Walk β) : Prop :=
  ∀ progress, StylusToScss.Renumbers f (walk.run progress).1 (walk'.run progress.unnumbered).1 ∧
    (walk'.run progress.unnumbered).2 = (walk.run progress).2.unnumbered

theorem renumbers_pure {a : α} {b : β} (same : f a = b) :
    Renumbers f (pure a : Walk α) (pure b) := by
  cases same
  exact fun _ => ⟨rfl, rfl⟩

theorem renumbers_malformed (shape : ShapeFault) (line : Nat) :
    Renumbers f (malformed shape line : Walk α) (malformed shape 0) :=
  fun _ => ⟨rfl, rfl⟩

theorem renumbers_rename (change : Names → Names) : Renumbers id (rename change) (rename change) :=
  fun _ => ⟨rfl, rfl⟩

theorem renumbers_bind (name : String) : Renumbers id (bind name) (bind name) := renumbers_rename _

theorem Renumbers.bind {next : α → Walk γ} {next' : β → Walk δ} (h : Renumbers f walk walk')
    (hn : ∀ a, Renumbers g (next a) (next' (f a))) :
    Renumbers g (walk >>= next) (walk' >>= next') := by
  intro progress
  obtain ⟨result, behind⟩ := h progress
  rw [run_bind, run_bind]
  generalize walk.run progress = first at result behind ⊢
  generalize walk'.run progress.unnumbered = second at result behind ⊢
  obtain ⟨outcome, after⟩ := first
  obtain ⟨outcome', after'⟩ := second
  obtain rfl : after' = after.unnumbered := behind
  cases outcome with
  | error e =>
    obtain rfl : outcome' = .error e.unnumbered := result
    exact ⟨rfl, rfl⟩
  | ok a =>
    obtain rfl : outcome' = .ok (f a) := result
    exact hn a after

theorem renumbers_value (around : Surrounding) {write write' : View → Written Fragment}
    (h : ∀ view, StylusToScss.Renumbers Fragment.unnumbered (write view) (write' view)) :
    Renumbers id (value around write) (value around write') := by
  intro progress
  rw [run_value, run_value]
  have here := h ⟨progress.names, around.within.isSome, around.policy⟩
  rw [show progress.unnumbered.names = progress.names from rfl]
  generalize write _ = outcome at here ⊢
  generalize write' _ = outcome' at here ⊢
  cases outcome with
  | error e =>
    obtain rfl : outcome' = .error e.unnumbered := here
    exact ⟨rfl, rfl⟩
  | ok fragment =>
    obtain rfl : outcome' = .ok fragment.unnumbered := here
    refine ⟨rfl, ?_⟩
    simp [Progress.unnumbered, Fragment.unnumbered]

end Walk

/-! ## Statements -/

/-- The marks without their lines. -/
abbrev unnumberedMarks (marks : List Mark) : List Mark := marks.map Mark.unnumbered

variable (around : Surrounding)

open Walk

theorem renumbers_nodeValue (node : Node) :
    Walk.Renumbers id (value around fun view => node.value view)
      (value around fun view => node.unnumbered.value view) :=
  Walk.renumbers_value around fun view => node.renumbers_value view

theorem renumbers_expressionValue (expression : Expression) :
    Walk.Renumbers id (value around fun view => expression.value view)
      (value around fun view => expression.unnumbered.value view) :=
  Walk.renumbers_value around fun view => expression.renumbers_value view

theorem renumbers_segmentsValue (segments : List Node) :
    Walk.Renumbers id (value around fun view => segmentsValue view segments)
      (value around fun view => segmentsValue view (unnumberedNodes segments)) :=
  Walk.renumbers_value around fun view => renumbers_segments view segments

theorem renumbers_policy (kind : String) (line : Nat) :
    Walk.Renumbers id (value around fun view => view.policy.unsupported kind line)
      (value around fun view => view.policy.unsupported kind 0) :=
  Walk.renumbers_value around fun view => renumbers_unsupported view.policy kind line

theorem renumbers_importMarks (path : List Literal) (line : Nat) :
    Walk.Renumbers unnumberedMarks (importMarks path line)
      (importMarks (path.map Literal.unnumbered) 0) := by
  unfold importMarks
  rw [List.isEmpty_map, pathQuote_unnumbered, List.map_map]
  split
  · exact renumbers_malformed _ line
  · exact renumbers_pure rfl

theorem renumbers_propertyMarks (segments : List Node) (value : Expression) (line : Nat) :
    Walk.Renumbers unnumberedMarks (propertyMarks around segments value line)
      (propertyMarks around (unnumberedNodes segments) value.unnumbered 0) := by
  unfold propertyMarks
  refine (renumbers_segmentsValue around segments).bind fun property => ?_
  rw [keepsForms_unnumbered.shorthand?]
  cases shorthand? value with
  | none =>
    refine (renumbers_expressionValue around value).bind fun text => ?_
    exact (renumbers_rename _).bind fun _ => renumbers_pure rfl
  | some bound =>
    refine (renumbers_expressionValue around bound.2).bind fun text => ?_
    refine (renumbers_bind bound.1).bind fun _ => ?_
    exact (renumbers_rename _).bind fun _ => renumbers_pure rfl

theorem renumbers_assignmentMarks (name : String) (value : Node) (line : Nat) :
    Walk.Renumbers unnumberedMarks (assignmentMarks around name value line)
      (assignmentMarks around name value.unnumbered 0) := by
  unfold assignmentMarks
  refine (renumbers_nodeValue around value).bind fun text => ?_
  exact (renumbers_bind name).bind fun _ => renumbers_pure rfl

theorem renumbers_expressionMarks (node : Node) :
    Walk.Renumbers unnumberedMarks (expressionMarks around node)
      (expressionMarks around node.unnumbered) := by
  unfold expressionMarks expressionWord
  rw [keepsForms_unnumbered.isCall, node.line_unnumbered]
  exact (renumbers_nodeValue around node).bind fun _ => renumbers_pure rfl

theorem renumbers_selectorMarks (selectors : List Selector) :
    Walk.Renumbers unnumberedMarks (selectorMarks around selectors)
      (selectorMarks around (unnumberedSelectors selectors)) := by
  induction selectors with
  | nil => exact renumbers_pure rfl
  | cons selector rest ih =>
    obtain ⟨segments, _⟩ := selector
    refine (renumbers_segmentsValue around segments).bind fun _ => ?_
    exact ih.bind fun _ => renumbers_pure rfl

theorem renumbers_bounds (left right : Node) (text : String → String → String) :
    Walk.Renumbers id
      (do
        let first ← value around fun view => left.value view
        let last ← value around fun view => right.value view
        return text first last)
      (do
        let first ← value around fun view => left.unnumbered.value view
        let last ← value around fun view => right.unnumbered.value view
        return text first last) :=
  (renumbers_nodeValue around left).bind fun _ =>
    (renumbers_nodeValue around right).bind fun _ => renumbers_pure rfl

theorem renumbers_items (nodes : List Node) :
    Walk.Renumbers id
      (value around fun view => do return .join ", " (← nodes.mapM (loopItem view)))
      (value around fun view => do
        return .join ", " (← (unnumberedNodes nodes).mapM (loopItem view))) :=
  Walk.renumbers_value around fun view =>
    (renumbers_loopItems view nodes).bind fun fragments => renumbers_join ", " fragments

theorem renumbers_loopHead (item : String) (key : Option String) (source : Expression)
    (line : Nat) :
    Walk.Renumbers id (loopHead around item key source line)
      (loopHead around item key source.unnumbered 0) := by
  unfold loopHead
  refine (renumbers_bind item).bind fun _ => ?_
  rw [keepsForms_unnumbered.range?]
  cases range? source with
  | some bounds =>
    obtain ⟨left, word, right⟩ := bounds
    have bounds := renumbers_bounds around left right
    cases key with
    | none => exact bounds _
    | some key => exact (renumbers_policy around _ line).bind fun _ => bounds _
  | none =>
    have items := renumbers_items around source.nodes
    cases key with
    | none =>
      refine (renumbers_pure (f := id) rfl).bind fun names => ?_
      exact items.bind fun _ => renumbers_pure rfl
    | some key =>
      refine (renumbers_bind key).bind fun _ => (renumbers_pure (f := id) rfl).bind fun names => ?_
      exact items.bind fun _ => renumbers_pure rfl

theorem renumbers_parameterTexts : ∀ params : List Node,
    Walk.Renumbers id (parameterTexts around params)
      (parameterTexts around (unnumberedNodes params))
  | [] => renumbers_pure rfl
  | node :: rest => by
    have behind := renumbers_parameterTexts rest
    match node with
    | .ident name _ _ _ =>
      exact (renumbers_bind _).bind fun _ => behind.bind fun _ => renumbers_pure rfl
    | .binding name value _ _ _ =>
      refine (renumbers_bind _).bind fun _ => (renumbers_nodeValue around value).bind fun _ => ?_
      exact behind.bind fun _ => renumbers_pure rfl
    | .group [] ⟨_, _⟩ | .group (⟨_, _⟩ :: _) ⟨_, _⟩ | .selector ⟨_, _⟩ | .block ⟨_, _⟩
    | .property _ ⟨_, _, _, _⟩ _ | .expression ⟨_, _, _, _⟩ | .call _ ⟨_, _⟩ _ | .arguments ⟨_, _⟩
    | .params ⟨_, _⟩ | .binary _ _ _ _ | .unary _ _ _ | .conditional _ ⟨_, _⟩ _ _
    | .loop _ _ ⟨_, _, _, _⟩ ⟨_, _⟩ _ | .definition _ ⟨_, _⟩ ⟨_, _⟩ _ | .importRule _ _
    | .literal _ | .measure _ _ _ | .boolean _ _ | .color _ _ | .unsupported _ _ =>
      exact renumbers_malformed _ _

theorem renumbers_definitionMarks (name : String) (params : Arguments) (line number : Nat)
    (form : DefinitionForm) {body body' : Walk (List Mark)}
    (h : Walk.Renumbers unnumberedMarks body body') :
    Walk.Renumbers unnumberedMarks (definitionMarks around name params line form body)
      (definitionMarks around name ⟨unnumberedNodes params.nodes, number⟩ 0 form body') := by
  unfold definitionMarks
  refine (renumbers_parameterTexts (around.inside form) params.nodes).bind fun texts => ?_
  exact h.bind fun _ => renumbers_pure rfl

mutual

theorem Node.renumbers_statement (around : Surrounding) : ∀ node : Node,
    Walk.Renumbers unnumberedMarks (node.statement around) (node.unnumbered.statement around)
  | .importRule path line => renumbers_importMarks path line
  | .group [] ⟨_, _⟩ => renumbers_malformed _ _
  | .group (⟨segments, line⟩ :: rest) ⟨members, number⟩ => by
    refine (renumbers_segmentsValue around segments).bind fun first => ?_
    refine (renumbers_selectorMarks around rest).bind fun more => ?_
    refine (Block.renumbers_marks around ⟨members, number⟩).bind fun body => renumbers_pure ?_
    simp [Mark.unnumbered]
  | .property segments ⟨nodes, isList, parenthesized, number⟩ line =>
    renumbers_propertyMarks around segments ⟨nodes, isList, parenthesized, number⟩ line
  | .ident name interpolated lookup line =>
    renumbers_expressionMarks around (.ident name interpolated lookup line)
  | .binding name value _ _ line => by
    have assigned := renumbers_assignmentMarks around name value line
    match value with
    | .definition inner params ⟨members, number⟩ line =>
      cases params
      rw [Node.unnumbered, Node.unnumbered, Node.statement, Node.statement]
      rw [show formOf ⟨unnumberedNodes members, 0⟩ = _ from formOf_unnumbered ⟨members, number⟩]
      exact renumbers_definitionMarks around inner _ line 0 _
        (Block.renumbers_marks _ ⟨members, number⟩)
    | .group _ ⟨_, _⟩ | .selector ⟨_, _⟩ | .block ⟨_, _⟩ | .property _ ⟨_, _, _, _⟩ _
    | .ident _ _ _ _ | .binding _ _ _ _ _ | .expression ⟨_, _, _, _⟩ | .call _ ⟨_, _⟩ _
    | .arguments ⟨_, _⟩ | .params ⟨_, _⟩ | .binary _ _ _ _ | .unary _ _ _
    | .conditional _ ⟨_, _⟩ _ _ | .loop _ _ ⟨_, _, _, _⟩ ⟨_, _⟩ _ | .importRule _ _
    | .literal _ | .measure _ _ _ | .boolean _ _ | .color _ _ | .unsupported _ _ =>
      exact assigned
  | .conditional condition ⟨members, number⟩ alternatives _ => by
    refine (renumbers_nodeValue around condition).bind fun text => ?_
    refine (Block.renumbers_marks around ⟨members, number⟩).bind fun body => ?_
    refine (renumbers_alternativeMarks around alternatives).bind fun more => renumbers_pure ?_
    simp [Mark.unnumbered]
  | .loop item key ⟨nodes, isList, parenthesized, number⟩ ⟨members, number'⟩ line => by
    refine (renumbers_loopHead around item key ⟨nodes, isList, parenthesized, number⟩ line).bind
      fun head => ?_
    exact (Block.renumbers_marks around ⟨members, number'⟩).bind fun _ => renumbers_pure rfl
  | .definition name params ⟨members, number⟩ line => by
    cases params
    rw [Node.unnumbered, Node.statement, Node.statement]
    rw [show formOf ⟨unnumberedNodes members, 0⟩ = _ from formOf_unnumbered ⟨members, number⟩]
    exact renumbers_definitionMarks around name _ line 0 _
      (Block.renumbers_marks _ ⟨members, number⟩)
  | .unsupported kind line =>
    (renumbers_policy around kind line).bind fun _ => renumbers_pure rfl
  | .expression ⟨nodes, isList, parenthesized, number⟩ =>
    renumbers_expressionMarks around (.expression ⟨nodes, isList, parenthesized, number⟩)
  | .call name ⟨nodes, number⟩ line =>
    renumbers_expressionMarks around (.call name ⟨nodes, number⟩ line)
  | .binary op left right line => renumbers_expressionMarks around (.binary op left right line)
  | .unary op operand line => renumbers_expressionMarks around (.unary op operand line)
  | .literal l => renumbers_expressionMarks around (.literal l)
  | .measure value unit line => renumbers_expressionMarks around (.measure value unit line)
  | .boolean value line => renumbers_expressionMarks around (.boolean value line)
  | .color raw line => renumbers_expressionMarks around (.color raw line)
  | .selector ⟨_, _⟩ | .block ⟨_, _⟩ | .arguments ⟨_, _⟩ | .params ⟨_, _⟩ =>
    renumbers_malformed _ _

theorem renumbers_alternativeMarks (around : Surrounding) : ∀ nodes : List Node,
    Walk.Renumbers unnumberedMarks (alternativeMarks around nodes)
      (alternativeMarks around (unnumberedNodes nodes))
  | [] => renumbers_pure rfl
  | .conditional condition ⟨members, number⟩ alternatives _ :: rest => by
    refine (renumbers_nodeValue around condition).bind fun text => ?_
    refine (Block.renumbers_marks around ⟨members, number⟩).bind fun body => ?_
    refine (renumbers_alternativeMarks around alternatives).bind fun inner => ?_
    refine (renumbers_alternativeMarks around rest).bind fun more => renumbers_pure ?_
    simp [Mark.unnumbered]
  | .block ⟨members, number⟩ :: rest => by
    refine (Block.renumbers_marks around ⟨members, number⟩).bind fun body => ?_
    refine (renumbers_alternativeMarks around rest).bind fun more => renumbers_pure ?_
    simp [Mark.unnumbered]
  | .group [] ⟨_, _⟩ :: _ | .group (⟨_, _⟩ :: _) ⟨_, _⟩ :: _ | .selector ⟨_, _⟩ :: _
  | .property _ ⟨_, _, _, _⟩ _ :: _ | .ident _ _ _ _ :: _ | .binding _ _ _ _ _ :: _
  | .expression ⟨_, _, _, _⟩ :: _ | .call _ ⟨_, _⟩ _ :: _ | .arguments ⟨_, _⟩ :: _
  | .params ⟨_, _⟩ :: _ | .binary _ _ _ _ :: _ | .unary _ _ _ :: _
  | .loop _ _ ⟨_, _, _, _⟩ ⟨_, _⟩ _ :: _ | .definition _ ⟨_, _⟩ ⟨_, _⟩ _ :: _
  | .importRule _ _ :: _ | .literal _ :: _ | .measure _ _ _ :: _ | .boolean _ _ :: _
  | .color _ _ :: _ | .unsupported _ _ :: _ => renumbers_malformed _ _

theorem Block.renumbers_marks (around : Surrounding) : ∀ block : Block,
    Walk.Renumbers unnumberedMarks (block.marks around) (block.unnumbered.marks around)
  | ⟨members, _⟩ => by
    refine (renumbers_statements around members).bind fun body => renumbers_pure ?_
    simp [Mark.unnumbered]

theorem renumbers_statements (around : Surrounding) : ∀ nodes : List Node,
    Walk.Renumbers unnumberedMarks (statements around nodes)
      (statements around (unnumberedNodes nodes))
  | [] => renumbers_pure rfl
  | node :: rest => by
    refine (node.renumbers_statement around).bind fun first => ?_
    refine (renumbers_statements around rest).bind fun more => renumbers_pure ?_
    exact List.map_append

end

/-! ## Texts -/

open Text

theorem isBlank_lead (feeds depth : Nat) :
    IsBlank (Layout.lineFeeds feeds ++ Layout.indentation depth).toList := by
  simp only [String.toList_append, Layout.lineFeeds, Layout.indentation, String.toList_ofList]
  exact isBlank_append (isBlank_replicate rfl _) (isBlank_replicate rfl _)

theorem lead_ne_nil {feeds : Nat} (depth : Nat) (some : feeds ≠ 0) :
    (Layout.lineFeeds feeds ++ Layout.indentation depth).toList ≠ [] := by
  simp [Layout.lineFeeds, some]

theorem leadFeeds_ne_zero {layout : Layout} (started : layout.started = true) (line : Nat) :
    layout.leadFeeds line ≠ 0 := by
  rw [Layout.leadFeeds, if_pos started]
  omega

/-- A selector stands behind a comma and white space, on whichever line it is. -/
theorem written_selector (layout : Layout) (line : Nat) :
    ∃ blank, (Mark.written layout (.selector line)).toList = ',' :: blank ∧ IsBlank blank ∧
      blank ≠ [] := by
  rw [Mark.written]
  split
  · exact ⟨[' '], rfl, List.forall_mem_singleton.2 rfl, by simp⟩
  · next later =>
    rw [String.append_assoc, String.toList_append]
    exact ⟨_, rfl, isBlank_lead _ _, lead_ne_nil _ (by omega)⟩

/-- Behind a statement, line numbers come into a text only as line feeds. -/
theorem collapse_layPieces {marks : List Mark} : ∀ layout layout' : Layout,
    layout.depth = layout'.depth → layout.started = true → layout'.started = true →
    collapse (String.join (layPieces layout marks)).toList =
      collapse (String.join (layPieces layout' (unnumberedMarks marks))).toList := by
  induction marks with
  | nil => exact fun _ _ _ _ _ => rfl
  | cons mark rest ih =>
    intro layout layout' depth started started'
    rw [unnumberedMarks, List.map_cons, layPieces, layPieces, String.join_cons, String.join_cons,
      String.toList_append, String.toList_append]
    cases mark with
    | text s => exact collapse_append _ (ih _ _ depth started started')
    | clause line => exact collapse_append _ (ih _ _ depth started started')
    | statement line =>
      -- behind another statement there is a line feed in either text, whatever the lines
      have feeds := leadFeeds_ne_zero started line
      have feeds' := leadFeeds_ne_zero started' 0
      exact collapse_blank_eq (isBlank_lead _ _) (isBlank_lead _ _) (lead_ne_nil _ feeds)
        (lead_ne_nil _ feeds') (ih _ _ depth rfl rfl)
    | selector line =>
      obtain ⟨a, same, blank, some⟩ := written_selector layout line
      obtain ⟨b, same', blank', some'⟩ := written_selector layout' 0
      have behind := collapse_blank_eq blank blank' some some'
        (ih (Mark.after layout (.selector line)) (Mark.after layout' (.selector 0)) depth started
          started')
      rw [same, Mark.unnumbered, same']
      exact collapse_append [','] behind
    | sameStatement =>
      rw [show Mark.sameStatement.unnumbered = .sameStatement from rfl, Mark.written, Mark.written,
        depth]
      exact collapse_append _ (ih _ _ depth started started')
    | opening => exact collapse_append _ (ih _ _ (congrArg (· + 1) depth) started started')
    | closing =>
      rw [show Mark.closing.unnumbered = .closing from rfl, Mark.written, Mark.written, depth]
      exact collapse_append _ (ih _ _ (congrArg (· - 1) depth) started started')

/-- The text of marks, of which the first one starts a statement, is the text of the marks without
their lines, up to white space. -/
theorem condensed_layOut {marks : List Mark}
    (front : marks = [] ∨ ∃ line rest, marks = .statement line :: rest) :
    condensed (layOut marks).toList = condensed (layOut (unnumberedMarks marks)).toList := by
  rcases front with rfl | ⟨line, rest, rfl⟩
  · rfl
  · rw [unnumberedMarks, List.map_cons, layOut, layOut, layPieces, layPieces, String.join_cons,
      String.join_cons, String.toList_append, String.toList_append, Mark.unnumbered, Mark.written,
      Mark.written, condensed_append (isBlank_lead _ _), condensed_append (isBlank_lead _ _)]
    exact congrArg trim (collapse_layPieces _ _ rfl rfl rfl)

/-! ## Conversions -/

/-- Without its line numbers a tree is converted to the same text up to white space, with the same
warnings but for their lines, or fails in the same way. -/
theorem Stylesheet.convert_unnumbered (sheet : Stylesheet) (options : Options) :
    (∃ x y, sheet.convert options = .ok x ∧ sheet.unnumbered.convert options = .ok y ∧
      condensed x.text.toList = condensed y.text.toList ∧
      x.warnings.map Warning.unnumbered = y.warnings) ∨
    ∃ e, sheet.convert options = .error e ∧
      sheet.unnumbered.convert options = .error e.unnumbered := by
  obtain ⟨result, behind⟩ := renumbers_statements ⟨options.policy, none⟩ sheet.nodes .start
  rw [show Progress.start.unnumbered = .start from rfl] at result behind
  have outlined (converted : Converted) (ok : sheet.convert options = .ok converted) :=
    sheet.lays_convert (fun _ _ => trivial) (spelledIn_all sheet.strings) ok
  have numbers : sheet.unnumbered.nodes = unnumberedNodes sheet.nodes := rfl
  unfold convert at outlined ⊢
  rw [numbers]
  generalize (statements ⟨options.policy, none⟩ sheet.nodes).run .start = first
    at result behind outlined ⊢
  generalize (statements ⟨options.policy, none⟩ (unnumberedNodes sheet.nodes)).run .start = second
    at result behind ⊢
  obtain ⟨outcome, after⟩ := first
  obtain ⟨outcome', after'⟩ := second
  obtain rfl : after' = after.unnumbered := behind
  cases outcome with
  | error e =>
    obtain rfl : outcome' = .error e.unnumbered := result
    exact .inr ⟨e, rfl, rfl⟩
  | ok marks =>
    obtain rfl : outcome' = .ok (unnumberedMarks marks) := result
    obtain ⟨_, same, -, laid⟩ := outlined _ rfl
    cases same
    refine .inl ⟨_, _, rfl, rfl, condensed_layOut ?_, rfl⟩
    rcases membersOutline_front sheet.nodes with none | ⟨line, rest, some⟩
    · rw [outline, none] at laid
      cases laid
      exact .inl rfl
    · rw [outline, some] at laid
      obtain ⟨more, same, -⟩ := laid.of_place rfl
      exact .inr ⟨line, more, same⟩

/-- Of two trees that are equal but for their line numbers both are converted or none is. The texts
are then equal up to white space and the warnings up to their lines, and failures are equal up to
their lines too. -/
theorem Stylesheet.convert_renumbered {a b : Stylesheet} (same : a.unnumbered = b.unnumbered)
    (options : Options) :
    (∃ x y, a.convert options = .ok x ∧ b.convert options = .ok y ∧
      condensed x.text.toList = condensed y.text.toList ∧
      x.warnings.map Warning.unnumbered = y.warnings.map Warning.unnumbered) ∨
    ∃ e e', a.convert options = .error e ∧ b.convert options = .error e' ∧
      e.unnumbered = e'.unnumbered := by
  have left := a.convert_unnumbered options
  have right := b.convert_unnumbered options
  rw [same] at left
  rcases left with ⟨x, z, okx, okz, text, warnings⟩ | ⟨e, fail, fails⟩
  · rcases right with ⟨y, z', oky, okz', text', warnings'⟩ | ⟨e, -, fails⟩
    · obtain rfl : z = z' := Except.ok.inj (okz.symm.trans okz')
      exact .inl ⟨x, y, okx, oky, text.trans text'.symm, warnings.trans warnings'.symm⟩
    · cases okz.symm.trans fails
  · rcases right with ⟨y, z', -, okz', -, -⟩ | ⟨e', fail', fails'⟩
    · cases fails.symm.trans okz'
    · exact .inr ⟨e, e', fail, fail', Except.error.inj (fails.symm.trans fails')⟩

/-- Two selectors on one line or on two, and an unsupported construct in their block. -/
theorem renumbered_selectors : ∃ a b : Stylesheet, a.unnumbered = b.unnumbered ∧
    (a.convert ⟨.scss, .lenient⟩).toOption =
      some ⟨"a, b \x7b\n  c: d;\n\x7d", [⟨"Media", 2⟩]⟩ ∧
    (b.convert ⟨.scss, .lenient⟩).toOption =
      some ⟨"\n\na,\nb \x7b\n\n\n  c: d;\n\x7d", [⟨"Media", 5⟩]⟩ ∧
    ∃ x y, a.convert ⟨.scss, .lenient⟩ = .ok x ∧ b.convert ⟨.scss, .lenient⟩ = .ok y ∧
      condensed x.text.toList = condensed y.text.toList := by
  obtain ⟨a, isFirst⟩ : ∃ sheet : Stylesheet, sheet =
    ⟨[.group [⟨[.plain "a" 1], 1⟩, ⟨[.plain "b" 1], 1⟩] ⟨[.unsupported "Media" 2,
      .property [.plain "c" 2] (.sequence [.name "d" 2] 2) 2], 2⟩]⟩ := ⟨_, rfl⟩
  obtain ⟨b, isSecond⟩ : ∃ sheet : Stylesheet, sheet =
    ⟨[.group [⟨[.plain "a" 3], 3⟩, ⟨[.plain "b" 4], 4⟩] ⟨[.unsupported "Media" 5,
      .property [.plain "c" 7] (.sequence [.name "d" 7] 7) 7], 5⟩]⟩ := ⟨_, rfl⟩
  have same : a.unnumbered = b.unnumbered := by
    rw [isFirst, isSecond]
    rfl
  have first : (a.convert ⟨.scss, .lenient⟩).toOption =
      some ⟨"a, b \x7b\n  c: d;\n\x7d", [⟨"Media", 2⟩]⟩ := by
    rw [isFirst]
    decide +kernel
  refine ⟨a, b, same, first, ?_, ?_⟩
  · rw [isSecond]
    decide +kernel
  · rcases Stylesheet.convert_renumbered same ⟨.scss, .lenient⟩ with
      ⟨x, y, okx, oky, text, -⟩ | ⟨e, -, fails, -⟩
    · exact ⟨x, y, okx, oky, text⟩
    · rw [fails] at first
      cases first

end StylusToScss
