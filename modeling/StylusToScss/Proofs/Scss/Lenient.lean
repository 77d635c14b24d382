import StylusToScss.Proofs.Scss.Erasure
import StylusToScss.Proofs.Scss.Obstacles

/-!
# Leaving out is erasing

To leave out what is unsupported is to write the tree without it: the lenient conversion of a tree
and the strict conversion of the erased tree come to the same, but for a warning for each thing that
is left out (`Stylesheet.convert_lenient`). The two walks are taken side by side. After each step
they know the same names (`Walk.Mirrors`).
-/

namespace StylusToScss

variable {α β : Type}

/-! ## Values -/

theorem misplacedInValue_erased (node : Node) :
    misplacedInValue node.erased = misplacedInValue node := by
  unfold misplacedInValue
  rw [node.kind_erased, node.line_erased]

section
variable (names : Names) (inside : Bool)

mutual

theorem Node.value_erased : ∀ node : Node, node.Orderly →
    node.erased.value ⟨names, inside, .strict⟩ = node.value ⟨names, inside, .lenient⟩
  | .expression ⟨nodes, _, _, _⟩, h => by
    simp only [Node.erased, Node.value, Expression.value, values_erased nodes h]
  | .call _ ⟨nodes, _⟩ _, h => by
    simp only [Node.erased, Node.value, argumentValues_erased nodes h]
  | .arguments ⟨nodes, _⟩, h => by
    simp only [Node.erased, Node.value, argumentValues_erased nodes h]
  | .params ⟨nodes, _⟩, h => by
    simp only [Node.erased, Node.value, argumentValues_erased nodes h]
  | .binding _ value _ _ _, h => by simp only [Node.erased, Node.value, value.value_erased h]
  | .binary _ left right _, h => by
    simp only [Node.erased, Node.value, left.value_erased h.1, right.value_erased h.2]
  | .unary _ operand _, h => by
    simp only [Node.erased, Node.value, operand.value_erased h, keepsForms_erased.isCompound]
  | .group selectors ⟨members, number⟩, _ =>
    misplacedInValue_erased (.group selectors ⟨members, number⟩)
  | .ident _ _ _ _, _ | .literal _, _ | .measure _ _ _, _ | .boolean _ _, _ | .color _ _, _
  | .importRule _ _, _ | .selector ⟨_, _⟩, _ | .block ⟨_, _⟩, _ | .property _ ⟨_, _, _, _⟩ _, _
  | .conditional _ ⟨_, _⟩ _ _, _ | .loop _ _ ⟨_, _, _, _⟩ ⟨_, _⟩ _, _
  | .definition _ ⟨_, _⟩ ⟨_, _⟩ _, _ => rfl

theorem values_erased : ∀ nodes : List Node, OrderlyNodes nodes →
    values ⟨names, inside, .strict⟩ (erasedNodes nodes) = values ⟨names, inside, .lenient⟩ nodes
  | [], _ => rfl
  | node :: rest, h => by
    simp only [erasedNodes, values, node.value_erased h.1, values_erased rest h.2]

theorem argumentValues_erased : ∀ nodes : List Node, OrderlyNodes nodes →
    argumentValues ⟨names, inside, .strict⟩ (erasedNodes nodes) =
      argumentValues ⟨names, inside, .lenient⟩ nodes
  | [], _ => rfl
  | node :: rest, h => by
    have behind := argumentValues_erased rest h.2
    by_cases bare : ∃ name line, node = .ident name false false line
    · obtain ⟨name, line, rfl⟩ := bare
      simp only [erasedNodes, Node.erased, argumentValues, behind]
      rfl
    · have other : ∀ name line, node ≠ .ident name false false line :=
        fun name line same => bare ⟨name, line, same⟩
      rw [erasedNodes, argumentValues_cons other,
        argumentValues_cons fun _ _ => mt Node.erased_eq_ident_iff.1 (other _ _),
        node.value_erased h.1, behind]

end

theorem loopItem_erased (node : Node) (h : node.Orderly) :
    loopItem ⟨names, inside, .strict⟩ node.erased = loopItem ⟨names, inside, .lenient⟩ node := by
  fun_induction loopItem ⟨names, inside, .lenient⟩ node with
  | case1 => rfl
  | case2 node _ _ ih => exact ih h.1
  | case3 node bare single =>
    rw [← node.value_erased names inside h, loopItem]
    · intro name line same
      exact bare name line (Node.erased_eq_ident_iff.1 same)
    · intro inner isList number same
      obtain ⟨_, _, _, rfl⟩ := keepsForms_erased.single_of same
      exact single _ _ _ rfl

theorem loopItems_erased : ∀ nodes : List Node, OrderlyNodes nodes →
    (erasedNodes nodes).mapM (loopItem ⟨names, inside, .strict⟩) =
      nodes.mapM (loopItem ⟨names, inside, .lenient⟩)
  | [], _ => rfl
  | node :: rest, h => by
    rw [erasedNodes, List.mapM_cons, List.mapM_cons, loopItem_erased names inside node h.1,
      loopItems_erased rest h.2]

end

/-! ### No warnings -/

/-- One more text without warnings, for a node of which nothing is dropped. -/
theorem quiet_cons {node : Node} {rest : List Node} {first : Written Fragment}
    {more : Written (List Fragment)}
    (h : Yields (fun fragment => fragment.warnings = [] ∧ node.dropped = []) (fun _ => True) first)
    (behind : Yields (fun texts => texts.flatMap (·.warnings) = [] ∧ droppedNodes rest = [])
      (fun _ => True) more) :
    Yields (fun texts => texts.flatMap (·.warnings) = [] ∧ droppedNodes (node :: rest) = [])
      (fun _ => True) (do return (← first) :: (← more)) := by
  refine h.bind fun fragment ⟨silent, clean⟩ => behind.bind fun texts ⟨silent', clean'⟩ => ?_
  exact ⟨List.append_eq_nil_iff.2 ⟨silent, silent'⟩, List.append_eq_nil_iff.2 ⟨clean, clean'⟩⟩

variable (view : View)

mutual

theorem Node.quiet_value : ∀ node : Node, node.Orderly →
    Yields (fun fragment => fragment.warnings = [] ∧ node.dropped = []) (fun _ => True)
      (node.value view)
  | .expression ⟨nodes, isList, parenthesized, _⟩, h => by
    rw [Node.value, Expression.value]
    refine (quiet_values nodes h).bind fun texts ⟨silent, clean⟩ => ⟨?_, clean⟩
    split
    · exact silent
    · exact silent
  | .call _ ⟨nodes, _⟩ _, h => (quiet_argumentValues nodes h).bind fun _ quiet => quiet
  | .arguments ⟨nodes, _⟩, h => (quiet_argumentValues nodes h).bind fun _ quiet => quiet
  | .params ⟨nodes, _⟩, h => (quiet_argumentValues nodes h).bind fun _ quiet => quiet
  | .binding _ value _ _ _, h => (value.quiet_value h).bind fun _ quiet => quiet
  | .binary _ left right _, h => by
    rw [Node.value]
    refine (left.quiet_value h.1).bind fun first ⟨silent, clean⟩ => ?_
    refine (right.quiet_value h.2).bind fun last ⟨silent', clean'⟩ => ?_
    refine ⟨?_, List.append_eq_nil_iff.2 ⟨clean, clean'⟩⟩
    simp [Fragment.join, silent, silent']
  | .unary _ operand _, h => (operand.quiet_value h).bind fun _ quiet => quiet
  | .ident _ _ _ _, _ | .literal _, _ | .measure _ _ _, _ | .boolean _ _, _ | .color _ _, _ =>
    ⟨rfl, rfl⟩
  | .importRule _ _, _ | .group _ ⟨_, _⟩, _ | .selector ⟨_, _⟩, _ | .block ⟨_, _⟩, _
  | .property _ ⟨_, _, _, _⟩ _, _ | .conditional _ ⟨_, _⟩ _ _, _
  | .loop _ _ ⟨_, _, _, _⟩ ⟨_, _⟩ _, _ | .definition _ ⟨_, _⟩ ⟨_, _⟩ _, _ => trivial

theorem quiet_values : ∀ nodes : List Node, OrderlyNodes nodes →
    Yields (fun texts => texts.flatMap (·.warnings) = [] ∧ droppedNodes nodes = [])
      (fun _ => True) (values view nodes)
  | [], _ => ⟨rfl, rfl⟩
  | node :: rest, h => by
    rw [values]
    exact quiet_cons (node.quiet_value h.1) (quiet_values rest h.2)

theorem quiet_argumentValues : ∀ nodes : List Node, OrderlyNodes nodes →
    Yields (fun texts => texts.flatMap (·.warnings) = [] ∧ droppedNodes nodes = [])
      (fun _ => True) (argumentValues view nodes)
  | [], _ => ⟨rfl, rfl⟩
  | node :: rest, h => by
    have here := node.quiet_value h.1
    have behind := quiet_argumentValues rest h.2
    unfold argumentValues
    split
    · next none => cases none
    · next same =>
      cases same
      exact behind.bind fun _ quiet => quiet
    · next same =>
      cases same
      exact quiet_cons here behind

end

theorem quiet_loopItem (node : Node) (h : node.Orderly) :
    Yields (fun fragment => fragment.warnings = [] ∧ node.dropped = []) (fun _ => True)
      (loopItem view node) := by
  fun_induction loopItem view node with
  | case1 => exact ⟨rfl, rfl⟩
  | case2 node _ _ ih =>
    refine (ih h.1).mono fun fragment ⟨silent, clean⟩ => ⟨silent, ?_⟩
    exact List.append_eq_nil_iff.2 ⟨clean, rfl⟩
  | case3 node => exact node.quiet_value view h

theorem quiet_loopItems : ∀ nodes : List Node, OrderlyNodes nodes →
    Yields (fun texts => texts.flatMap (·.warnings) = [] ∧ droppedNodes nodes = [])
      (fun _ => True) (nodes.mapM (loopItem view))
  | [], _ => ⟨rfl, rfl⟩
  | node :: rest, h => by
    rw [List.mapM_cons]
    exact quiet_cons (quiet_loopItem view node h.1) (quiet_loopItems rest h.2)

/-! ### Both -/

/-- What is erased is written under the strict policy as the original under the lenient, and without
warnings; and if it can be written, then nothing was erased. -/
structure Steady (dropped : List Warning) (write erased : View → Written Fragment) : Prop where
  same : ∀ names inside, erased ⟨names, inside, .strict⟩ = write ⟨names, inside, .lenient⟩
  quiet : ∀ view, Yields (fun fragment => fragment.warnings = [] ∧ dropped = []) (fun _ => True)
    (write view)

theorem Node.steady {node : Node} (h : node.Orderly) :
    Steady node.dropped (fun view => node.value view) (fun view => node.erased.value view) where
  same names inside := node.value_erased names inside h
  quiet view := node.quiet_value view h

theorem Expression.steady {expression : Expression} (h : OrderlyNodes expression.nodes) :
    Steady (droppedNodes expression.nodes) (fun view => expression.value view)
      (fun view => expression.erased.value view) := by
  obtain ⟨nodes, isList, parenthesized, line⟩ := expression
  have node : (Node.expression ⟨nodes, isList, parenthesized, line⟩).Orderly := h
  exact Node.steady node

theorem steady_segments {segments : List Node} (h : OrderlyNodes segments) :
    Steady (droppedNodes segments) (fun view => segmentsValue view segments)
      (fun view => segmentsValue view (erasedNodes segments)) where
  same names inside := by simp only [segmentsValue, values_erased names inside segments h]
  quiet view := (quiet_values view segments h).bind fun _ quiet => quiet

theorem steady_loopItems {nodes : List Node} (h : OrderlyNodes nodes) :
    Steady (droppedNodes nodes)
      (fun view => do return .join ", " (← nodes.mapM (loopItem view)))
      (fun view => do return .join ", " (← (erasedNodes nodes).mapM (loopItem view))) where
  same names inside := by simp only [loopItems_erased names inside nodes h]
  quiet view := (quiet_loopItems view nodes h).bind fun _ quiet => quiet

/-! ## Walks -/

namespace Walk

/-- From the same names on, the second walk comes to what the first one comes to, and to the same
names; and the first one, if it succeeds, gives a warning for each thing that is dropped. -/
def Mirrors (dropped : List Warning) (walk erased : Walk α) : Prop :=
  ∀ progress progress', progress.names = progress'.names →
    (walk.run progress).1 = (erased.run progress').1 ∧
    (walk.run progress).2.names = (erased.run progress').2.names ∧
    Yields (fun _ => (walk.run progress).2.warnings = progress.warnings ++ dropped)
      (fun _ => True) (walk.run progress).1

variable {dropped more : List Warning} {walk erased : Walk α} {next next' : α → Walk β}

theorem mirrors_pure (a : α) : Mirrors [] (pure a : Walk α) (pure a) :=
  fun progress _ same => ⟨rfl, same, (List.append_nil progress.warnings).symm⟩

theorem mirrors_malformed (shape : ShapeFault) (line : Nat) :
    Mirrors dropped (malformed shape line : Walk α) (malformed shape line) :=
  fun _ _ same => ⟨rfl, same, trivial⟩

theorem mirrors_rename (f : Names → Names) : Mirrors [] (rename f) (rename f) :=
  fun progress _ same => ⟨rfl, congrArg f same, (List.append_nil progress.warnings).symm⟩

theorem mirrors_bind (name : String) : Mirrors [] (bind name) (bind name) := mirrors_rename _

theorem Mirrors.bind (h : Mirrors dropped walk erased) (hn : ∀ a, Mirrors more (next a) (next' a)) :
    Mirrors (dropped ++ more) (walk >>= next) (erased >>= next') := by
  intro progress progress' same
  obtain ⟨result, names, warned⟩ := h progress progress' same
  rw [run_bind, run_bind]
  generalize walk.run progress = first at result names warned ⊢
  generalize erased.run progress' = second at result names ⊢
  obtain ⟨outcome, after⟩ := first
  obtain ⟨outcome', after'⟩ := second
  obtain rfl : outcome = outcome' := result
  cases outcome with
  | error e => exact ⟨rfl, names, trivial⟩
  | ok a =>
    obtain ⟨result, names, warned'⟩ := hn a after after' names
    refine ⟨result, names, warned'.mono fun _ behind => ?_⟩
    rw [behind, show after.warnings = _ from warned, List.append_assoc]

/-- Nothing is dropped behind the first part. -/
theorem Mirrors.last (h : Mirrors dropped walk erased) (hn : ∀ a, Mirrors [] (next a) (next' a)) :
    Mirrors dropped (walk >>= next) (erased >>= next') := by
  have both := h.bind hn
  rwa [List.append_nil] at both

/-- A step that only warns has no counterpart. -/
theorem Mirrors.warn {a : α} {walk : Walk α} {next : α → Walk β} {other : Walk β}
    (warns : ∀ progress, walk.run progress =
      (.ok a, { progress with warnings := progress.warnings ++ dropped }))
    (hn : Mirrors more (next a) other) : Mirrors (dropped ++ more) (walk >>= next) other := by
  intro progress progress' same
  rw [run_bind, warns]
  obtain ⟨result, names, warned⟩ :=
    hn { progress with warnings := progress.warnings ++ dropped } progress' same
  refine ⟨result, names, warned.mono fun _ behind => ?_⟩
  rw [behind, List.append_assoc]

theorem mirrors_value {write erased : View → Written Fragment} (h : Steady dropped write erased)
    (within : Option DefinitionForm) :
    Mirrors dropped (value ⟨.lenient, within⟩ write) (value ⟨.strict, within⟩ erased) := by
  intro progress progress' same
  rw [run_value, run_value, h.same, same]
  have quiet := h.quiet ⟨progress'.names, within.isSome, .lenient⟩
  generalize write _ = outcome at quiet ⊢
  cases outcome with
  | error e => exact ⟨rfl, same, trivial⟩
  | ok fragment =>
    refine ⟨rfl, rfl, ?_⟩
    show progress.warnings ++ fragment.warnings = progress.warnings ++ dropped
    rw [quiet.1, quiet.2]

/-- Under the lenient policy what is unsupported gives a warning and no text. -/
theorem run_value_unsupported (within : Option DefinitionForm) (kind : String) (line : Nat)
    (progress : Progress) :
    (value ⟨.lenient, within⟩ fun view => view.policy.unsupported kind line).run progress =
      (.ok "", { progress with warnings := progress.warnings ++ [⟨kind, line⟩] }) :=
  run_value _ _ progress

end Walk

/-! ## Statements -/

variable (within : Option DefinitionForm)

open Walk

theorem run_unsupportedMarks (kind : String) (line : Nat) (progress : Progress) :
    (unsupportedMarks ⟨.lenient, within⟩ kind line).run progress =
      (.ok [], { progress with warnings := progress.warnings ++ [⟨kind, line⟩] }) := by
  unfold unsupportedMarks
  rw [run_bind, run_value_unsupported]
  rfl

theorem mirrors_propertyMarks {segments : List Node} {value : Expression} (line : Nat)
    (hs : OrderlyNodes segments) (hv : OrderlyNodes value.nodes) :
    Mirrors (droppedNodes segments ++ droppedNodes value.nodes)
      (propertyMarks ⟨.lenient, within⟩ segments value line)
      (propertyMarks ⟨.strict, within⟩ (erasedNodes segments) value.erased line) := by
  unfold propertyMarks
  refine (mirrors_value (steady_segments hs) within).bind fun property => ?_
  rw [keepsForms_erased.shorthand?]
  cases short : shorthand? value with
  | none =>
    refine (mirrors_value (Expression.steady hv) within).last fun text => ?_
    exact (mirrors_rename _).bind fun _ => mirrors_pure _
  | some bound =>
    obtain ⟨name, ⟨nodes, isList, parenthesized, number⟩⟩ := bound
    obtain ⟨_, _, _, only⟩ := nodes_of_shorthand? short
    rw [only] at hv ⊢
    have orderly : OrderlyNodes (Expression.mk nodes isList parenthesized number).nodes := hv.1
    refine (mirrors_value (Expression.steady orderly) within).bind fun text => ?_
    exact (mirrors_bind name).bind fun _ => (mirrors_rename _).bind fun _ => mirrors_pure _

theorem mirrors_assignmentMarks (name : String) {value : Node} (line : Nat) (h : value.Orderly) :
    Mirrors value.dropped (assignmentMarks ⟨.lenient, within⟩ name value line)
      (assignmentMarks ⟨.strict, within⟩ name value.erased line) := by
  unfold assignmentMarks
  refine (mirrors_value (Node.steady h) within).last fun text => ?_
  exact (mirrors_bind name).bind fun _ => mirrors_pure _

theorem mirrors_expressionMarks {node : Node} (h : node.Orderly) :
    Mirrors node.dropped (expressionMarks ⟨.lenient, within⟩ node)
      (expressionMarks ⟨.strict, within⟩ node.erased) := by
  unfold expressionMarks expressionWord
  rw [keepsForms_erased.isCall, node.line_erased]
  exact (mirrors_value (Node.steady h) within).last fun _ => mirrors_pure _

theorem mirrors_selectorMarks : ∀ selectors : List Selector, OrderlySelectors selectors →
    Mirrors (droppedSelectors selectors) (selectorMarks ⟨.lenient, within⟩ selectors)
      (selectorMarks ⟨.strict, within⟩ (erasedSelectors selectors))
  | [], _ => mirrors_pure _
  | ⟨_, _⟩ :: rest, h => by
    refine (mirrors_value (steady_segments h.1) within).bind fun text => ?_
    exact (mirrors_selectorMarks rest h.2).last fun _ => mirrors_pure _

theorem mirrors_loopHead (item : String) (key : Option String) {source : Expression} (line : Nat)
    (h : OrderlyNodes source.nodes) :
    Mirrors (droppedKey key source line ++ droppedNodes source.nodes)
      (loopHead ⟨.lenient, within⟩ item key source line)
      (loopHead ⟨.strict, within⟩ item (keptKey key source) source.erased line) := by
  unfold loopHead droppedKey keptKey
  refine (mirrors_bind item).bind fun _ => ?_
  rw [keepsForms_erased.range?]
  cases range : range? source with
  | some bounds =>
    obtain ⟨left, word, right⟩ := bounds
    obtain ⟨op, number, nodes⟩ := nodes_of_range? range
    rw [nodes] at h ⊢
    obtain ⟨⟨orderly, orderly'⟩, -⟩ := h
    have texts (text : String → String → String) :=
      (mirrors_value (Node.steady orderly) within).bind fun first =>
        (mirrors_value (Node.steady orderly') within).last fun last =>
          mirrors_pure (text first last)
    have both : droppedNodes [.binary op left right number] = left.dropped ++ right.dropped :=
      List.append_nil _
    simp only [both, Option.map_some, Option.isSome_some, if_true, true_and, Option.isSome_none,
      Bool.false_eq_true, if_false]
    cases key with
    | none => exact texts _
    | some key => exact Mirrors.warn (Walk.run_value_unsupported within _ line) (texts _)
  | none =>
    have items := mirrors_value (steady_loopItems h) within
    cases key with
    | some key =>
      refine (mirrors_bind key).bind fun _ => (mirrors_pure _).bind fun names => ?_
      exact items.last fun _ => mirrors_pure _
    | none =>
      refine (mirrors_pure _).bind fun names => ?_
      exact items.last fun _ => mirrors_pure _

theorem mirrors_parameterTexts : ∀ params : List Node, OrderlyNodes params →
    Mirrors (droppedNodes params) (parameterTexts ⟨.lenient, within⟩ params)
      (parameterTexts ⟨.strict, within⟩ (erasedNodes params))
  | [], _ => mirrors_pure _
  | node :: rest, h => by
    have behind := mirrors_parameterTexts rest h.2
    match node with
    | .ident name _ _ _ =>
      exact (mirrors_bind _).bind fun _ => behind.last fun _ => mirrors_pure _
    | .binding name value _ _ _ =>
      have orderly : value.Orderly := h.1
      refine (mirrors_bind _).bind fun _ => ?_
      refine (mirrors_value (Node.steady orderly) within).bind fun text => ?_
      exact behind.last fun _ => mirrors_pure _
    | .group selectors ⟨_, _⟩ =>
      show Mirrors _ (Walk.malformed _ _) (Walk.malformed _ (groupLine (erasedSelectors selectors)))
      rw [groupLine_erasedSelectors]
      exact mirrors_malformed _ _
    | .selector ⟨_, _⟩ | .block ⟨_, _⟩ | .property _ ⟨_, _, _, _⟩ _
    | .expression ⟨_, _, _, _⟩ | .call _ ⟨_, _⟩ _ | .arguments ⟨_, _⟩ | .params ⟨_, _⟩
    | .binary _ _ _ _ | .unary _ _ _ | .conditional _ ⟨_, _⟩ _ _
    | .loop _ _ ⟨_, _, _, _⟩ ⟨_, _⟩ _ | .definition _ ⟨_, _⟩ ⟨_, _⟩ _ | .importRule _ _
    | .literal _ | .measure _ _ _ | .boolean _ _ | .color _ _ => exact mirrors_malformed _ _

/-- Erasing does not change which form a definition has. -/
theorem mirrors_definition (name : String) {nodes : List Node} (number line : Nat)
    (hp : OrderlyNodes nodes) (members : List Node) (number' : Nat)
    (hb : Mirrors (droppedNodes members)
      (Block.marks ⟨.lenient, some (formOf ⟨members, number'⟩)⟩ ⟨members, number'⟩)
      (Block.marks ⟨.strict, some (formOf ⟨members, number'⟩)⟩ ⟨erasedMembers members, number'⟩)) :
    Mirrors (droppedNodes nodes ++ droppedNodes members)
      ((Node.definition name ⟨nodes, number⟩ ⟨members, number'⟩ line).statement ⟨.lenient, within⟩)
      ((Node.definition name ⟨nodes, number⟩ ⟨members, number'⟩ line).erased.statement
        ⟨.strict, within⟩) := by
  rw [Node.erased, Node.statement, Node.statement]
  rw [show formOf ⟨erasedMembers members, number'⟩ = _ from formOf_erased ⟨members, number'⟩]
  unfold definitionMarks
  refine (mirrors_parameterTexts _ nodes hp).bind fun texts => ?_
  exact hb.last fun _ => mirrors_pure _

mutual

theorem Node.mirrors_statement (within : Option DefinitionForm) : ∀ node : Node, node.Orderly →
    Mirrors node.dropped (node.statement ⟨.lenient, within⟩)
      (node.erased.statement ⟨.strict, within⟩)
  | .importRule path line, _ => by
    show Mirrors [] (importMarks path line) (importMarks path line)
    unfold importMarks
    split
    · exact mirrors_malformed _ _
    · exact mirrors_pure _
  | .group [] ⟨_, _⟩, _ => mirrors_malformed _ _
  | .group (⟨segments, _⟩ :: rest) ⟨members, _⟩, h => by
    show Mirrors ((droppedNodes segments ++ droppedSelectors rest) ++ droppedNodes members) _ _
    rw [List.append_assoc]
    refine (mirrors_value (steady_segments h.1.1) within).bind fun first => ?_
    refine (mirrors_selectorMarks within rest h.1.2).bind fun more => ?_
    exact (mirrors_block within members h.2 _).last fun _ => mirrors_pure _
  | .property segments ⟨_, _, _, _⟩ line, h => mirrors_propertyMarks within line h.1 h.2
  | .ident name interpolated lookup line, h => mirrors_expressionMarks within h
  | .binding name value _ _ line, h => by
    have orderly : value.Orderly := h
    have assigned := mirrors_assignmentMarks within name line orderly
    match value with
    | .definition name ⟨nodes, number⟩ ⟨members, number'⟩ line =>
      exact mirrors_definition within name number line h.1 members number'
        (mirrors_block _ members h.2 number')
    | .group _ ⟨_, _⟩ | .selector ⟨_, _⟩ | .block ⟨_, _⟩ | .property _ ⟨_, _, _, _⟩ _
    | .ident _ _ _ _ | .binding _ _ _ _ _ | .expression ⟨_, _, _, _⟩ | .call _ ⟨_, _⟩ _
    | .arguments ⟨_, _⟩ | .params ⟨_, _⟩ | .binary _ _ _ _ | .unary _ _ _
    | .conditional _ ⟨_, _⟩ _ _ | .loop _ _ ⟨_, _, _, _⟩ ⟨_, _⟩ _ | .importRule _ _
    | .literal _ | .measure _ _ _ | .boolean _ _ | .color _ _ => exact assigned
  | .conditional condition ⟨members, _⟩ alternatives _, h => by
    refine (mirrors_value (Node.steady h.1) within).bind fun text => ?_
    refine (mirrors_block within members h.2.1 _).bind fun body => ?_
    exact (mirrors_alternativeMarks within alternatives h.2.2).last fun _ => mirrors_pure _
  | .loop item key ⟨nodes, isList, parenthesized, number⟩ ⟨members, _⟩ line, h => by
    rw [Node.dropped, ← List.append_assoc]
    refine (mirrors_loopHead within item key line h.1).bind fun head => ?_
    exact (mirrors_block within members h.2 _).last fun _ => mirrors_pure _
  | .definition name ⟨nodes, number⟩ ⟨members, number'⟩ line, h =>
    mirrors_definition within name number line h.1 members number'
      (mirrors_block _ members h.2 number')
  | .expression ⟨_, _, _, _⟩, h => mirrors_expressionMarks within h
  | .call _ ⟨_, _⟩ _, h => mirrors_expressionMarks within h
  | .binary _ _ _ _, h => mirrors_expressionMarks within h
  | .unary _ _ _, h => mirrors_expressionMarks within h
  | .literal _, h => mirrors_expressionMarks within h
  | .measure _ _ _, h => mirrors_expressionMarks within h
  | .boolean _ _, h => mirrors_expressionMarks within h
  | .color _ _, h => mirrors_expressionMarks within h
  | .selector ⟨_, _⟩, _ => mirrors_malformed _ _
  | .block ⟨_, _⟩, _ => mirrors_malformed _ _
  | .arguments ⟨_, _⟩, _ => mirrors_malformed _ _
  | .params ⟨_, _⟩, _ => mirrors_malformed _ _

theorem mirrors_alternativeMarks (within : Option DefinitionForm) : ∀ nodes : List Node,
    OrderlyNodes nodes → Mirrors (droppedNodes nodes) (alternativeMarks ⟨.lenient, within⟩ nodes)
      (alternativeMarks ⟨.strict, within⟩ (erasedNodes nodes))
  | [], _ => mirrors_pure _
  | .conditional condition ⟨members, _⟩ alternatives _ :: rest, h => by
    show Mirrors ((condition.dropped ++ (droppedNodes members ++ droppedNodes alternatives)) ++
      droppedNodes rest) _ _
    rw [List.append_assoc, List.append_assoc]
    refine (mirrors_value (Node.steady h.1.1) within).bind fun text => ?_
    refine (mirrors_block within members h.1.2.1 _).bind fun body => ?_
    refine (mirrors_alternativeMarks within alternatives h.1.2.2).bind fun inner => ?_
    exact (mirrors_alternativeMarks within rest h.2).last fun _ => mirrors_pure _
  | .block ⟨members, _⟩ :: rest, h => by
    refine (mirrors_block within members h.1 _).bind fun body => ?_
    exact (mirrors_alternativeMarks within rest h.2).last fun _ => mirrors_pure _
  | .group selectors ⟨_, _⟩ :: _, _ => by
    show Mirrors _ (Walk.malformed _ _) (Walk.malformed _ (groupLine (erasedSelectors selectors)))
    rw [groupLine_erasedSelectors]
    exact mirrors_malformed _ _
  | .selector ⟨_, _⟩ :: _, _ | .property _ ⟨_, _, _, _⟩ _ :: _, _ | .ident _ _ _ _ :: _, _
  | .binding _ _ _ _ _ :: _, _ | .expression ⟨_, _, _, _⟩ :: _, _ | .call _ ⟨_, _⟩ _ :: _, _
  | .arguments ⟨_, _⟩ :: _, _ | .params ⟨_, _⟩ :: _, _ | .binary _ _ _ _ :: _, _
  | .unary _ _ _ :: _, _ | .loop _ _ ⟨_, _, _, _⟩ ⟨_, _⟩ _ :: _, _
  | .definition _ ⟨_, _⟩ ⟨_, _⟩ _ :: _, _ | .importRule _ _ :: _, _ | .literal _ :: _, _
  | .measure _ _ _ :: _, _ | .boolean _ _ :: _, _ | .color _ _ :: _, _ => mirrors_malformed _ _

theorem mirrors_block (within : Option DefinitionForm) (members : List Node)
    (h : OrderlyMembers members) (number : Nat) :
    Mirrors (droppedNodes members) (Block.marks ⟨.lenient, within⟩ ⟨members, number⟩)
      (Block.marks ⟨.strict, within⟩ ⟨erasedMembers members, number⟩) :=
  (mirrors_statements within members h).last fun _ => mirrors_pure _

theorem mirrors_statements (within : Option DefinitionForm) : ∀ members : List Node,
    OrderlyMembers members →
    Mirrors (droppedNodes members) (statements ⟨.lenient, within⟩ members)
      (statements ⟨.strict, within⟩ (erasedMembers members))
  | [], _ => mirrors_pure _
  | node :: rest, h => by
    unfold erasedMembers
    split
    · next none => cases none
    · next kind line rest same =>
      cases same
      have behind := mirrors_statements within rest h
      rw [← bind_pure (statements _ (erasedMembers rest))]
      exact Mirrors.warn (run_unsupportedMarks within kind line)
        (behind.last fun _ => mirrors_pure _)
    · next node rest supported same =>
      cases same
      have h : node.Orderly ∧ OrderlyMembers rest := by
        rwa [OrderlyMembers] at h
        exact supported
      refine (node.mirrors_statement within h.1).bind fun first => ?_
      exact (mirrors_statements within rest h.2).last fun _ => mirrors_pure _

end

/-! ## Conversions -/

/-- Where unsupported constructs stand only in statement lists, the lenient conversion of a tree is
the strict conversion of the tree without them and without the keys of its loops over ranges; it
warns of each of them once, in the order of the walk. -/
theorem Stylesheet.convert_lenient (sheet : Stylesheet) (dialect : Dialect) (h : sheet.Orderly) :
    sheet.convert ⟨dialect, .lenient⟩ =
      (sheet.erased.convert ⟨dialect, .strict⟩).map fun converted =>
        ⟨converted.text, sheet.dropped⟩ := by
  obtain ⟨result, -, warned⟩ := mirrors_statements none sheet.nodes h .start .start rfl
  have erased : sheet.erased.nodes = erasedMembers sheet.nodes := rfl
  unfold convert
  rw [erased]
  generalize (statements ⟨.lenient, none⟩ sheet.nodes).run .start = first at result warned ⊢
  generalize (statements ⟨.strict, none⟩ _).run .start = second at result ⊢
  obtain ⟨outcome, after⟩ := first
  obtain ⟨outcome', after'⟩ := second
  obtain rfl : outcome = outcome' := result
  cases outcome with
  | error e => rfl
  | ok marks =>
    have warnings : after.warnings = sheet.dropped := warned
    rw [← warnings]
    rfl

/-- An unsupported construct in front of a loop over a range that has a key, and one in its body. -/
theorem lenient_range : ∃ sheet : Stylesheet, sheet.Orderly ∧
    sheet.dropped = [⟨"Media", 1⟩, ⟨"range loop key", 2⟩, ⟨"Charset", 3⟩] ∧
    (sheet.convert ⟨.scss, .lenient⟩ = (sheet.erased.convert ⟨.scss, .strict⟩).map fun converted =>
      ⟨converted.text, sheet.dropped⟩) ∧
    (sheet.convert ⟨.scss, .lenient⟩).toOption =
      some ⟨"\n@for $i from $a through $b \x7b\n\n  w: $i;\n\x7d", sheet.dropped⟩ := by
  obtain ⟨sheet, same⟩ : ∃ sheet : Stylesheet, sheet = ⟨[.unsupported "Media" 1,
    .loop "i" (some "k") (.sequence [.binary ".." (.name "$a" 2) (.name "$b" 2) 2] 2)
      ⟨[.unsupported "Charset" 3, .property [.plain "w" 4] (.sequence [.name "i" 4] 4) 4], 3⟩ 2]⟩ :=
    ⟨_, rfl⟩
  have orderly : sheet.Orderly := by
    rw [same]
    exact ⟨⟨⟨⟨trivial, trivial⟩, trivial⟩, ⟨⟨trivial, trivial⟩, trivial, trivial⟩, trivial⟩,
      trivial⟩
  refine ⟨sheet, orderly, ?_, sheet.convert_lenient .scss orderly, ?_⟩
  · rw [same]
    rfl
  · rw [same]
    decide +kernel

end StylusToScss
