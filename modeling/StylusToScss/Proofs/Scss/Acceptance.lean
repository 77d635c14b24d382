import StylusToScss.Proofs.Scss.Erasure
import StylusToScss.Proofs.Scss.Obstacles
import StylusToScss.Proofs.Tree.Shape

/-!
# Which trees can be written

A tree can be written if each of its nodes has the shape that its place asks for; what is without
counterpart may stand in it, also as a value. The strict policy asks in addition that there is
nothing to leave out. Both are read off the obstacles of the tree, so they hold wherever the walk
has come to (`Stylesheet.convert_isOk_iff`).
-/

namespace StylusToScss

variable {policy : Policy}

/-- The shape of what can be written: unsupported constructs are values too, and a group has
selectors. -/
abbrev Leeway.written : Leeway := ⟨True, False⟩

/-! ## Obstacles, shape, and what is left out -/

/-- There is no obstacle exactly where the shape is given and, under the strict policy, nothing is
left out. -/
def Settles (policy : Policy) (obstacles : List ConversionError) (shape : Prop)
    (dropped : List Warning) : Prop :=
  obstacles = [] ↔ shape ∧ (policy = .strict → dropped = [])

namespace Settles

variable {first more : List ConversionError} {shape shape' : Prop} {dropped dropped' : List Warning}

theorem nil : Settles policy [] True [] := by simp [Settles]

/-- A shape that is not given is an obstacle. -/
theorem misplaced (e : ConversionError) (dropped : List Warning) :
    Settles policy [e] False dropped := by
  simp [Settles]

theorem append (h : Settles policy first shape dropped) (h' : Settles policy more shape' dropped') :
    Settles policy (first ++ more) (shape ∧ shape') (dropped ++ dropped') := by
  unfold Settles at h h' ⊢
  rw [List.append_eq_nil_iff, h, h', List.append_eq_nil_iff]
  constructor
  · rintro ⟨⟨given, none⟩, given', none'⟩
    exact ⟨⟨given, given'⟩, fun strict => ⟨none strict, none' strict⟩⟩
  · rintro ⟨⟨given, given'⟩, none⟩
    exact ⟨⟨given, fun strict => (none strict).1⟩, given', fun strict => (none strict).2⟩

/-- The shape in other words. -/
theorem congr (h : Settles policy first shape dropped) (same : shape ↔ shape') :
    Settles policy first shape' dropped := by
  unfold Settles
  rw [← same]
  exact h

theorem unsupported (kind : String) (line : Nat) :
    Settles policy (policy.obstacles kind line) True [⟨kind, line⟩] := by
  cases policy with
  | strict => simp [Settles, Policy.obstacles]
  | lenient => simp [Settles, Policy.obstacles]

/-- What a list that must not be empty stands in the way of. -/
theorem nonempty {α : Type} {items : List α} (e : ConversionError) :
    Settles policy (if items.isEmpty then [e] else []) (items ≠ []) [] := by
  cases items with
  | nil => exact (misplaced e []).congr (by simp)
  | cons => exact nil.congr (by simp)

end Settles

open Settles

/-! ## Values -/

mutual

theorem Node.settles_value : ∀ node : Node,
    Settles policy (node.valueObstacles policy) (node.IsValue .written) node.dropped
  | .expression ⟨nodes, _, _, _⟩ | .call _ ⟨nodes, _⟩ _ | .arguments ⟨nodes, _⟩
  | .params ⟨nodes, _⟩ => settles_values nodes
  | .binding _ value _ _ _ => value.settles_value
  | .binary _ left right _ => left.settles_value.append right.settles_value
  | .unary _ operand _ => operand.settles_value
  | .ident _ _ _ _ | .literal _ | .measure _ _ _ | .boolean _ _ | .color _ _ => nil
  | .unsupported kind line => unsupported kind line
  | .importRule _ _ | .group _ _ | .selector _ | .block _ | .property _ _ _ | .conditional _ _ _ _
  | .loop _ _ _ _ _ | .definition _ _ _ _ => misplaced _ _

theorem settles_values : ∀ nodes : List Node,
    Settles policy (valueObstacles policy nodes) (AreValues .written nodes) (droppedNodes nodes)
  | [] => nil
  | node :: rest => node.settles_value.append (settles_values rest)

end

theorem Expression.settles_value (expression : Expression) :
    Settles policy (valueObstacles policy expression.nodes) (expression.IsValue .written)
      (droppedNodes expression.nodes) :=
  settles_values expression.nodes

theorem settles_selectors (selectors : List Selector) :
    Settles policy (selectors.flatMap (valueObstacles policy ·.segments))
      (∀ selector ∈ selectors, AreValues .written selector.segments)
      (droppedSelectors selectors) := by
  induction selectors with
  | nil => exact nil.congr (by simp)
  | cons selector rest ih =>
    obtain ⟨segments, _⟩ := selector
    exact ((settles_values segments).append ih).congr (by simp)

theorem Node.settles_parameter (node : Node) :
    Settles policy (node.parameterObstacles policy) (node.IsParameter .written) node.dropped := by
  cases node with
  | ident => exact nil
  | binding name value => exact value.settles_value
  | _ => exact misplaced _ _

theorem settles_parameters : ∀ params : List Node,
    Settles policy (params.flatMap (Node.parameterObstacles policy))
      (∀ param ∈ params, param.IsParameter .written) (droppedNodes params)
  | [] => nil.congr (by simp)
  | param :: rest =>
    (param.settles_parameter.append (settles_parameters rest)).congr (by simp)

theorem settles_loopHead (key : Option String) (source : Expression) (line : Nat) :
    Settles policy (loopObstacles policy key source line) (source.IsValue .written)
      (droppedKey key source line ++ droppedNodes source.nodes) := by
  have head : Settles policy
      (if (range? source).isSome ∧ key.isSome then policy.obstacles "range loop key" line else [])
      True (droppedKey key source line) := by
    unfold droppedKey
    split
    · exact unsupported _ line
    · exact nil
  exact (head.append source.settles_value).congr (by simp)

/-! ## Statements -/

mutual

theorem Node.settles_statement : ∀ node : Node,
    Settles policy (node.statementObstacles policy) (node.IsStatement .written) node.dropped
  | .importRule path line => nonempty _
  | .group selectors ⟨members, line⟩ => by
    have bare : Settles policy _ (selectors ≠ []) [] :=
      nonempty (.malformed .groupWithoutSelectors line)
    have whole := (bare.append (settles_selectors selectors)).append (settles_statements members)
    exact whole.congr and_assoc
  | .property segments ⟨nodes, _, _, _⟩ _ =>
    (settles_values segments).append (settles_values nodes)
  | .binding name value interpolated lookup line => by
    have assigned : Settles policy _ _ _ := value.settles_value
    cases value with
    | definition inner params b number =>
      obtain ⟨params, _⟩ := params
      obtain ⟨members, _⟩ := b
      exact (settles_parameters params).append (settles_statements members)
    | _ => exact assigned
  | .definition _ ⟨params, _⟩ ⟨members, _⟩ _ =>
    (settles_parameters params).append (settles_statements members)
  | .conditional condition ⟨members, _⟩ alternatives _ => by
    have whole := condition.settles_value.append
      ((settles_statements members).append (settles_alternatives alternatives))
    rw [← List.append_assoc] at whole
    exact whole
  | .loop _ key ⟨nodes, isList, parenthesized, number⟩ ⟨members, _⟩ line => by
    have whole := (settles_loopHead key ⟨nodes, isList, parenthesized, number⟩ line).append
      (settles_statements members)
    rw [List.append_assoc] at whole
    exact whole
  | .unsupported kind line => unsupported kind line
  | .selector _ | .block _ | .arguments _ | .params _ => misplaced _ _
  | .expression e => (Node.expression e).settles_value
  | .call name arguments line => (Node.call name arguments line).settles_value
  | .binary op left right line => (Node.binary op left right line).settles_value
  | .unary op operand line => (Node.unary op operand line).settles_value
  | .ident _ _ _ _ | .literal _ | .measure _ _ _ | .boolean _ _ | .color _ _ => nil

theorem settles_alternatives : ∀ nodes : List Node,
    Settles policy (alternativeObstacles policy nodes) (AreAlternatives .written nodes)
      (droppedNodes nodes)
  | [] => nil
  | .conditional condition ⟨members, _⟩ alternatives _ :: rest => by
    have whole := ((condition.settles_value.append
      ((settles_statements members).append (settles_alternatives alternatives))).append
        (settles_alternatives rest)).congr (by rw [and_assoc, and_assoc])
    rw [← List.append_assoc (condition.valueObstacles policy)] at whole
    exact whole
  | .block ⟨members, _⟩ :: rest => (settles_statements members).append (settles_alternatives rest)
  | .importRule _ _ :: _ | .group _ _ :: _ | .selector _ :: _ | .property _ _ _ :: _
  | .ident _ _ _ _ :: _ | .binding _ _ _ _ _ :: _ | .expression _ :: _ | .call _ _ _ :: _
  | .arguments _ :: _ | .params _ :: _ | .binary _ _ _ _ :: _ | .unary _ _ _ :: _
  | .loop _ _ _ _ _ :: _ | .literal _ :: _ | .measure _ _ _ :: _ | .boolean _ _ :: _
  | .color _ _ :: _ | .definition _ _ _ _ :: _ | .unsupported _ _ :: _ => misplaced _ _

theorem settles_statements : ∀ nodes : List Node,
    Settles policy (statementObstacles policy nodes) (AreStatements .written nodes)
      (droppedNodes nodes)
  | [] => nil
  | node :: rest => node.settles_statement.append (settles_statements rest)

end

/-! ## Trees -/

/-- The walk over statements succeeds exactly where they can be written, wherever it has come to. -/
theorem statements_isOk_iff (around : Surrounding) (progress : Progress) (nodes : List Node) :
    (∃ marks, ((statements around nodes).run progress).1 = .ok marks) ↔
      AreStatements .written nodes ∧ (around.policy = .strict → droppedNodes nodes = []) :=
  (FailsWith.isOk_iff (fails_statements around nodes progress)).trans (settles_statements nodes)

/-- The lenient policy writes exactly the trees with the shape of what can be written, the strict
one those among them in which nothing is left out, that is without unsupported constructs and
without keys beside ranges. Neither depends on the definition around the statements, on the names
known, or on the warnings given so far. -/
theorem Stylesheet.convert_isOk_iff (sheet : Stylesheet) :
    (∀ dialect, (∃ converted, sheet.convert ⟨dialect, .lenient⟩ = .ok converted) ↔
      AreStatements .written sheet.nodes) ∧
    (∀ dialect, (∃ converted, sheet.convert ⟨dialect, .strict⟩ = .ok converted) ↔
      AreStatements .written sheet.nodes ∧ sheet.dropped = []) ∧
    ∀ (around : Surrounding) (progress : Progress),
      (∃ marks, ((statements around sheet.nodes).run progress).1 = .ok marks) ↔
        AreStatements .written sheet.nodes ∧ (around.policy = .strict → sheet.dropped = []) := by
  refine ⟨fun dialect => ?_, fun dialect => ?_, ?_⟩
  · have h := (sheet.fails_convert ⟨dialect, .lenient⟩).isOk_iff.trans
      (settles_statements sheet.nodes)
    rw [h]
    exact and_iff_left (by simp)
  · have h := (sheet.fails_convert ⟨dialect, .strict⟩).isOk_iff.trans
      (settles_statements sheet.nodes)
    rw [h]
    exact and_congr_right fun _ => ⟨fun none => none rfl, fun none _ => none⟩
  · exact fun around progress => statements_isOk_iff around progress sheet.nodes

end StylusToScss
