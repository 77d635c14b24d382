import StylusToScss.Proofs.Scss.Discipline
import StylusToScss.Scss.Conversion

/-!
# The emitter and the walk

The emitter gives its text at once, the walk over the tree gives marks that are laid out in the end.
Both come to the same text, the same failures and the same names: what a step of the emitter gives
is what the marks of the walk write from the emitter's layout on.

* `Surrounding.emitter` is the state of the emitter at a place of the walk.
* `Renders` compares a step of the emitter with the walk of the same part of the tree, one lemma for
  each renderer.
* `Stylesheet.emit_eq_convert`: a tree is emitted as it is converted.
-/

namespace StylusToScss

open Emit

variable {α β α' β' : Type}

/-- The state of the emitter within these surroundings. -/
def Surrounding.emitter (around : Surrounding) (layout : Layout) (names : Names) : Emitter :=
  ⟨layout, names, around.within.isSome, around.within.bind (·.returnWord), around.policy⟩

/-- What marks give from a layout on: their text, and the layout behind them. -/
def laid (layout : Layout) (marks : List Mark) : String × Layout :=
  (String.join (layPieces layout marks), marks.foldl Mark.after layout)

theorem laid_nil (layout : Layout) : laid layout [] = ("", layout) := rfl

theorem laid_cons (layout : Layout) (mark : Mark) (marks : List Mark) :
    laid layout (mark :: marks) =
      (mark.written layout ++ (laid (mark.after layout) marks).1,
        (laid (mark.after layout) marks).2) := by
  simp only [laid, layPieces, String.join_cons, List.foldl_cons]

theorem laid_append (layout : Layout) (front back : List Mark) :
    laid layout (front ++ back) =
      ((laid layout front).1 ++ (laid (laid layout front).2 back).1,
        (laid (laid layout front).2 back).2) := by
  simp only [laid, layPieces_append, String.join_append, List.foldl_append]

/-- What a walk comes to is what the step of the emitter comes to. A result of the walk gives the
one of the step and the layout behind it. -/
def Renders (around : Surrounding) (layout : Layout) (give : β → α × Layout) (step : Emit α)
    (walk : Walk β) : Prop :=
  ∀ progress : Progress,
    match walk.run progress with
    | (.ok b, after) => runFrom step (around.emitter layout progress.names) =
        (.ok (give b).1, around.emitter (give b).2 after.names)
    | (.error e, _) => (runFrom step (around.emitter layout progress.names)).1 = .error e

section
variable {around : Surrounding} {layout : Layout} {give : β → α × Layout} {step : Emit α}
  {walk : Walk β}

theorem renders_pure {a : α} {b : β} (h : give b = (a, layout)) :
    Renders around layout give (pure a) (pure b) := by
  intro progress
  show (Except.ok a, around.emitter layout progress.names) =
    (.ok (give b).1, around.emitter (give b).2 progress.names)
  rw [h]

theorem renders_malformed (shape : ShapeFault) (line : Nat) :
    Renders around layout give (malformed shape line) (Walk.malformed shape line) :=
  fun _ => rfl

theorem Renders.bind {next : α → Emit α'} {walk' : β → Walk β'} {give' : β' → α' × Layout}
    (first : Renders around layout give step walk)
    (second : ∀ b, Renders around (give b).2 give' (next (give b).1) (walk' b)) :
    Renders around layout give' (step >>= next) (walk >>= walk') := by
  intro progress
  have here := first progress
  rw [Walk.run_bind]
  generalize walk.run progress = result at here ⊢
  obtain ⟨e | b, after⟩ := result
  · have failed : (runFrom step (around.emitter layout progress.names)).1 = .error e := here
    show (runFrom (step >>= next) _).1 = .error e
    rw [runFrom_bind]
    generalize runFrom step (around.emitter layout progress.names) = reached at failed ⊢
    obtain ⟨outcome, behind⟩ := reached
    cases failed
    rfl
  · have done : runFrom step (around.emitter layout progress.names) =
        (.ok (give b).1, around.emitter (give b).2 after.names) := here
    have rest := second b after
    rw [runFrom_bind, done]
    exact rest

/-- The emitter places a mark where the walk only lists it. -/
theorem Renders.placed {mark : Mark} {next : String → Emit α}
    (rest : Renders around (mark.after layout) give (next (mark.written layout)) walk) :
    Renders around layout give (place mark >>= next) walk := by
  intro progress
  rw [runFrom_bind, runFrom_place]
  exact rest progress

/-- The emitter looks at its state where the walk knows its surroundings. -/
theorem Renders.got {next : Emitter → Emit α}
    (rest : ∀ names, Renders around layout give (next (around.emitter layout names)) walk) :
    Renders around layout give (get >>= next) walk := by
  intro progress
  rw [runFrom_get]
  exact rest progress.names progress

/-- A result that both have, in a layout that stays. -/
def still (layout : Layout) (a : α) : α × Layout := (a, layout)

theorem renders_same (a : α) : Renders around layout (still layout) (pure a) (pure a) :=
  renders_pure rfl

theorem renders_rename (f : Names → Names) :
    Renders around layout (still layout) (rename f) (Walk.rename f) :=
  fun _ => rfl

theorem renders_value {step : Emit String} {write : View → Written Fragment}
    (h : ∀ emitter, runFrom step emitter = ((write emitter.view).map (·.text), emitter)) :
    Renders around layout (still layout) step (Walk.value around write) := by
  intro progress
  have given := h (around.emitter layout progress.names)
  have seen : (around.emitter layout progress.names).view =
      ⟨progress.names, around.within.isSome, around.policy⟩ := rfl
  rw [seen] at given
  rw [Walk.run_value]
  generalize write ⟨progress.names, around.within.isSome, around.policy⟩ = written at given ⊢
  cases written with
  | ok fragment => exact given
  | error e => exact congrArg Prod.fst given

theorem renders_nodeValue (node : Node) :
    Renders around layout (still layout) (value node)
      (Walk.value around fun view => node.value view) :=
  renders_value fun emitter => runFrom_value emitter node

theorem renders_expressionValue (e : Expression) :
    Renders around layout (still layout) (expression e)
      (Walk.value around fun view => e.value view) :=
  renders_value fun emitter => runFrom_expression emitter e

theorem renders_segments (nodes : List Node) :
    Renders around layout (still layout) (segments nodes)
      (Walk.value around fun view => segmentsValue view nodes) :=
  renders_value fun emitter => runFrom_segments emitter nodes

theorem renders_policy (kind : String) (line : Nat) :
    Renders around layout (still layout) (unsupported kind line)
      (Walk.value around fun view => view.policy.unsupported kind line) :=
  renders_value fun emitter => runFrom_unsupported emitter kind line

/-! ## Statements without a block -/

theorem renders_importRule (path : List Literal) (line : Nat) :
    Renders around layout (laid layout) (importRule path line) (importMarks path line) := by
  unfold importRule importMarks
  split
  · exact renders_malformed _ _
  · refine .placed (renders_pure ?_)
    simp only [laid_cons, laid_nil, Mark.written, Mark.after, String.append_assoc,
      String.append_empty]

theorem renders_property (name : List Node) (node : Expression) (line : Nat) :
    Renders around layout (laid layout) (property name node line)
      (propertyMarks around name node line) := by
  unfold property propertyMarks
  refine .placed ((renders_segments name).bind fun property => ?_)
  cases shorthand? node with
  | some found =>
    obtain ⟨declared, e⟩ := found
    refine (renders_expressionValue e).bind fun text => ?_
    refine (renders_rename _).bind fun _ => ?_
    refine (renders_rename _).bind fun _ => .placed (renders_pure ?_)
    simp only [laid_cons, laid_nil, still, Mark.written, Mark.after, String.append_assoc,
      String.append_empty]
  | none =>
    refine (renders_expressionValue node).bind fun text => ?_
    refine (renders_rename _).bind fun _ => renders_pure ?_
    simp only [laid_cons, laid_nil, still, Mark.written, Mark.after, String.append_assoc,
      String.append_empty]

theorem renders_assignment (name : String) (node : Node) (line : Nat) :
    Renders around layout (laid layout) (assignment name node line)
      (assignmentMarks around name node line) := by
  refine .placed ((renders_nodeValue node).bind fun text => ?_)
  refine (renders_rename _).bind fun _ => renders_pure ?_
  simp only [laid_cons, laid_nil, still, Mark.written, Mark.after, String.append_assoc,
    String.append_empty]

theorem returnWord_emitter (node : Node) (layout : Layout) (names : Names) :
    (around.emitter layout names).returnWord.getD (if isCall node then "@include " else "") =
      expressionWord around node := by
  obtain ⟨policy, within⟩ := around
  cases within with
  | none => rfl
  | some form => cases form <;> rfl

theorem renders_expressionStatement (node : Node) :
    Renders around layout (laid layout) (expressionStatement node)
      (expressionMarks around node) := by
  refine .placed ((renders_nodeValue node).bind fun text => .got fun names => renders_pure ?_)
  rw [returnWord_emitter]
  simp only [laid_cons, laid_nil, still, Mark.written, Mark.after, String.append_assoc,
    String.append_empty]

/-- What is left out gives no text. -/
theorem renders_unsupported (kind : String) (line : Nat) :
    Renders around layout (laid layout) (unsupported kind line)
      (unsupportedMarks around kind line) := by
  intro progress
  have policy : Renders around layout _ _ _ := renders_policy kind line
  have given := policy progress
  unfold unsupportedMarks
  rw [Walk.run_bind]
  rw [Walk.run_value] at given ⊢
  cases policy : around.policy with
  | strict =>
    rw [policy] at given
    exact given
  | lenient =>
    rw [policy] at given
    exact given

/-! ## The lines above a block -/

theorem renders_selectors (rest : List Selector) :
    Renders around layout (laid layout) (selectors rest) (selectorMarks around rest) := by
  induction rest generalizing layout with
  | nil => exact renders_pure rfl
  | cons selector rest ih =>
    obtain ⟨nodes, line⟩ := selector
    refine .placed ((renders_segments nodes).bind fun text => ?_)
    refine ih.bind fun more => renders_pure ?_
    simp only [laid_cons, still, Mark.written, Mark.after, String.append_assoc]

theorem renders_loopSource (nodes : List Node) :
    Renders around layout (still layout) (loopSource nodes)
      (Walk.value around fun view => do return .join ", " (← nodes.mapM (loopItem view))) :=
  renders_value fun emitter => runFrom_loopSource emitter nodes

theorem renders_loopHead (name : String) (key : Option String) (source : Expression)
    (line : Nat) :
    Renders around layout (still layout) (Emit.loopHead name key source line)
      (StylusToScss.loopHead around name key source line) := by
  unfold Emit.loopHead StylusToScss.loopHead
  refine (renders_rename _).bind fun _ => ?_
  cases range? source with
  | some bounds =>
    obtain ⟨left, word, right⟩ := bounds
    have between : Renders around layout (still layout)
        (do
          let first ← value left
          let last ← value right
          return "@for " ++ reference name ++ " from " ++ first ++ " " ++ word ++ " " ++ last)
        (do
          let first ← Walk.value around fun view => left.value view
          let last ← Walk.value around fun view => right.value view
          return "@for " ++ reference name ++ " from " ++ first ++ " " ++ word ++ " " ++ last) := by
      refine (renders_nodeValue left).bind fun first => ?_
      exact (renders_nodeValue right).bind fun last => renders_pure rfl
    cases key with
    | some key => exact (renders_policy _ line).bind fun _ => between
    | none => exact between
  | none =>
    have each (names : String) : Renders around layout (still layout)
        (do
          let text ← loopSource source.nodes
          return "@each " ++ names ++ " in " ++ text)
        (do
          let items ← Walk.value around fun view => do
            return .join ", " (← source.nodes.mapM (loopItem view))
          return "@each " ++ names ++ " in " ++ items) :=
      (renders_loopSource source.nodes).bind fun text => renders_pure rfl
    cases key with
    | some key =>
      refine (renders_rename _).bind fun _ => ?_
      exact (renders_same _).bind each
    | none => exact (renders_same _).bind each

theorem renders_parameters (params : List Node) :
    Renders around layout (still layout) (parameters params) (parameterTexts around params) := by
  induction params with
  | nil => exact renders_pure rfl
  | cons node rest ih =>
    cases node with
    | ident name =>
      refine (renders_rename _).bind fun _ => ?_
      exact ih.bind fun texts => renders_pure rfl
    | binding name node =>
      refine (renders_rename _).bind fun _ => ?_
      refine (renders_nodeValue node).bind fun text => ?_
      exact ih.bind fun texts => renders_pure rfl
    | _ => exact renders_malformed _ _

/-! ## Blocks and definitions -/

theorem renders_enclosed {body : Emit String} {marks : Walk (List Mark)}
    (within : Renders around (Mark.opening.after layout)
      (laid (Mark.opening.after layout)) body marks) :
    Renders around layout (laid layout) (Emit.enclosed body)
      (do return .opening :: (← marks) ++ [.closing]) := by
  intro progress
  have inner := within progress
  have entered : { around.emitter layout progress.names with
      layout := Mark.opening.after (around.emitter layout progress.names).layout } =
        around.emitter (Mark.opening.after layout) progress.names := rfl
  rw [Walk.run_bind, runFrom_enclosed, entered]
  generalize marks.run progress = result at inner ⊢
  obtain ⟨e | b, after⟩ := result
  · have failed : (runFrom body (around.emitter (Mark.opening.after layout) progress.names)).1 =
        .error e := inner
    simp only [failed]
    rfl
  · have done : runFrom body (around.emitter (Mark.opening.after layout) progress.names) =
        (.ok _, around.emitter _ after.names) := inner
    have whole : laid layout (.opening :: b ++ [.closing]) =
        (Mark.opening.written layout ++ (laid (Mark.opening.after layout) b).1 ++
            Mark.closing.written (laid (Mark.opening.after layout) b).2,
          Mark.closing.after (laid (Mark.opening.after layout) b).2) := by
      simp only [List.cons_append, laid_cons, laid_append, laid_nil, String.append_empty,
        String.append_assoc]
    simp only [done]
    show (Except.ok _, _) = (Except.ok (laid layout (.opening :: b ++ [.closing])).1,
      around.emitter (laid layout (.opening :: b ++ [.closing])).2 after.names)
    rw [whole]
    rfl

/-- The walk of the parameters and the body of a definition. -/
def interiorMarks (around : Surrounding) (params : List Node) (body : Walk (List Mark)) :
    Walk (List String × List Mark) := do
  let texts ← parameterTexts around params
  let marks ← body
  return (texts, marks)

theorem definitionMarks_eq (name : String) (params : Arguments) (line : Nat)
    (form : DefinitionForm) (body : Walk (List Mark)) :
    definitionMarks around name params line form body = do
      let pair ← interiorMarks (around.inside form) params.nodes body
      let head := form.word ++ name ++ parenthesize (String.intercalate ", " pair.1)
      return .statement line :: .text head :: pair.2 := by
  simp [definitionMarks, interiorMarks]

theorem renders_interior {params : List Node} {block : Emit String} {body : Walk (List Mark)}
    (within : Renders around layout (laid layout) block body) :
    Renders around layout (fun pair => ((pair.1, (laid layout pair.2).1), (laid layout pair.2).2))
      (interior params block) (interiorMarks around params body) := by
  refine (renders_parameters params).bind fun texts => ?_
  exact within.bind fun marks => renders_pure rfl

theorem renders_definition {name : String} {params : Arguments} {line : Nat}
    {form : DefinitionForm} {block : Emit String} {body : Walk (List Mark)}
    (within : Renders (around.inside form) ((Mark.statement line).after layout)
      (laid ((Mark.statement line).after layout)) block body) :
    Renders around layout (laid layout) (Emit.definition name params.nodes line form block)
      (definitionMarks around name params line form body) := by
  intro progress
  have interiors : Renders _ _ _ (interior params.nodes block) _ := renders_interior within
  have inner := interiors progress
  have entered : (around.emitter layout progress.names).entering line form =
      (around.inside form).emitter ((Mark.statement line).after layout) progress.names := rfl
  rw [runFrom_definition, entered, definitionMarks_eq, Walk.run_bind]
  generalize (interiorMarks (around.inside form) params.nodes body).run progress = result
    at inner ⊢
  obtain ⟨e | pair, after⟩ := result
  · have failed : (runFrom (interior params.nodes block) ((around.inside form).emitter
        ((Mark.statement line).after layout) progress.names)).1 = .error e := inner
    simp only [failed]
    rfl
  · obtain ⟨texts, marks⟩ := pair
    have done : runFrom (interior params.nodes block) ((around.inside form).emitter
        ((Mark.statement line).after layout) progress.names) =
        (.ok (texts, _), (around.inside form).emitter _ after.names) := inner
    simp only [done]
    show (Except.ok _, _) = (Except.ok (laid layout _).1,
      around.emitter (laid layout (_ :: _ :: _)).2 after.names)
    simp only [laid_cons, Mark.written, Mark.after, String.append_assoc]
    rfl

mutual

/-- A statement is emitted as the walk writes it. -/
theorem Node.renders_statement (around : Surrounding) (layout : Layout) : ∀ node : Node,
    Renders around layout (laid layout) (visit node) (node.statement around)
  | .importRule path line => renders_importRule path line
  | .group [] b => renders_malformed _ _
  | .group (⟨nodes, line⟩ :: rest) b => by
    refine .placed ((renders_segments nodes).bind fun first => ?_)
    refine (renders_selectors rest).bind fun more => ?_
    refine (renders_block around _ b).bind fun body => renders_pure ?_
    simp only [laid_cons, laid_append, still, Mark.written, Mark.after, List.cons_append,
      String.append_assoc]
  | .property name node line => renders_property name node line
  | .ident name interpolated lookup line =>
    renders_expressionStatement (.ident name interpolated lookup line)
  | .binding name node _ _ line => by
    have assigned : Renders around layout _ _ _ := renders_assignment name node line
    cases node with
    | definition name params b line => exact renders_definition (renders_block _ _ b)
    | _ => exact assigned
  | .conditional condition b others line => by
    refine .placed ((renders_nodeValue condition).bind fun text => ?_)
    refine (renders_block around _ b).bind fun body => ?_
    refine (renders_alternatives around _ others).bind fun more => renders_pure ?_
    simp only [laid_cons, laid_append, still, Mark.written, Mark.after, List.cons_append,
      String.append_assoc]
  | .loop name key source b line => by
    refine .placed ((renders_loopHead name key source line).bind fun head => ?_)
    refine (renders_block around _ b).bind fun body => renders_pure ?_
    simp only [laid_cons, still, Mark.written, Mark.after, String.append_assoc]
  | .definition name params b line => renders_definition (renders_block _ _ b)
  | .unsupported kind line => renders_unsupported kind line
  | .expression e => renders_expressionStatement (.expression e)
  | .call name arguments line => renders_expressionStatement (.call name arguments line)
  | .binary op left right line => renders_expressionStatement (.binary op left right line)
  | .unary op operand line => renders_expressionStatement (.unary op operand line)
  | .literal l => renders_expressionStatement (.literal l)
  | .measure value unit line => renders_expressionStatement (.measure value unit line)
  | .boolean value line => renders_expressionStatement (.boolean value line)
  | .color raw line => renders_expressionStatement (.color raw line)
  | .selector _ | .block _ | .arguments _ | .params _ => renders_malformed _ _

theorem renders_alternatives (around : Surrounding) (layout : Layout) : ∀ nodes : List Node,
    Renders around layout (laid layout) (alternatives nodes) (alternativeMarks around nodes)
  | [] => renders_pure rfl
  | node :: rest => by
    cases node with
    | conditional condition b others line =>
      refine .placed ((renders_nodeValue condition).bind fun text => ?_)
      refine (renders_block around _ b).bind fun body => ?_
      refine (renders_alternatives around _ others).bind fun inner => ?_
      refine (renders_alternatives around _ rest).bind fun more => renders_pure ?_
      simp only [laid_cons, laid_append, still, Mark.written, Mark.after, List.cons_append,
        List.append_assoc, String.append_assoc, String.empty_append]
    | block b =>
      refine .placed ((renders_block around _ b).bind fun body => ?_)
      refine (renders_alternatives around _ rest).bind fun more => renders_pure ?_
      simp only [laid_cons, laid_append, Mark.written, Mark.after, List.cons_append,
        String.append_assoc, String.empty_append]
    | _ => exact renders_malformed _ _

theorem renders_block (around : Surrounding) (layout : Layout) : ∀ b : Block,
    Renders around layout (laid layout) (block b) (b.marks around)
  | ⟨nodes, _⟩ => renders_enclosed (renders_statements around _ nodes)

theorem renders_statements (around : Surrounding) (layout : Layout) : ∀ nodes : List Node,
    Renders around layout (laid layout) (Emit.statements nodes)
      (StylusToScss.statements around nodes)
  | [] => renders_pure rfl
  | node :: rest => by
    refine (node.renders_statement around layout).bind fun first => ?_
    refine (renders_statements around _ rest).bind fun more => renders_pure ?_
    simp only [laid_append]

end

end

/-- A tree is emitted as it is converted. -/
theorem Stylesheet.emit_eq_convert (options : Options) (sheet : Stylesheet) :
    sheet.emit options.policy = (sheet.convert options).map (·.text) := by
  have whole := renders_statements ⟨options.policy, none⟩ .start sheet.nodes Progress.start
  unfold Stylesheet.emit Stylesheet.convert
  generalize (StylusToScss.statements ⟨options.policy, none⟩ sheet.nodes).run Progress.start =
    result at whole ⊢
  obtain ⟨e | marks, after⟩ := result
  · exact whole
  · exact congrArg Prod.fst whole

end StylusToScss
