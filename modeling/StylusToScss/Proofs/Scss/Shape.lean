import StylusToScss.Proofs.Scss.Obstacles
import StylusToScss.Proofs.Tree.Shape

/-!
# What stands in the way of a tree with a shape

A value has no obstacles. Of a tree of statements, the only ones are those that its shape leaves
room for: the unsupported constructs, and the groups without selectors.
-/

namespace StylusToScss

variable {may : Leeway} {policy : Policy}

/-- The obstacle is one that a shape leaves room for. -/
def ConversionError.Foreseen (may : Leeway) : ConversionError → Prop
  | .unsupported _ _ => True
  | .malformed .groupWithoutSelectors _ => may.bare
  | _ => False

theorem foreseen_obstacles (kind : String) (line : Nat) :
    ∀ o ∈ policy.obstacles kind line, o.Foreseen may := by
  cases policy with
  | strict =>
    intro o ho
    cases List.mem_singleton.1 ho
    trivial
  | lenient => exact nofun

/-! ## Values -/

mutual

theorem Node.valueObstacles_of_isValue (h : may.unsupported → policy = .lenient) :
    ∀ node : Node, node.IsValue may → node.valueObstacles policy = []
  | .expression ⟨nodes, _, _, _⟩, hn => valueObstacles_of_areValues h nodes hn
  | .call _ ⟨nodes, _⟩ _, hn => valueObstacles_of_areValues h nodes hn
  | .arguments ⟨nodes, _⟩, hn => valueObstacles_of_areValues h nodes hn
  | .params ⟨nodes, _⟩, hn => valueObstacles_of_areValues h nodes hn
  | .binding _ value _ _ _, hn => value.valueObstacles_of_isValue h hn
  | .binary _ left right _, hn => List.append_eq_nil_iff.2
    ⟨left.valueObstacles_of_isValue h hn.1, right.valueObstacles_of_isValue h hn.2⟩
  | .unary _ operand _, hn => operand.valueObstacles_of_isValue h hn
  | .unsupported kind line, hn => by
    show policy.obstacles kind line = []
    rw [h hn]
    rfl
  | .ident _ _ _ _, _ | .literal _, _ | .measure _ _ _, _ | .boolean _ _, _ | .color _ _, _ => rfl

theorem valueObstacles_of_areValues (h : may.unsupported → policy = .lenient) :
    ∀ nodes : List Node, AreValues may nodes → valueObstacles policy nodes = []
  | [], _ => rfl
  | node :: rest, hn => List.append_eq_nil_iff.2
    ⟨node.valueObstacles_of_isValue h hn.1, valueObstacles_of_areValues h rest hn.2⟩

end

section
variable (h : may.unsupported → policy = .lenient)
include h

theorem Node.foreseen_of_isValue (node : Node) (hn : node.IsValue may) :
    ∀ o ∈ node.valueObstacles policy, o.Foreseen may := by
  rw [node.valueObstacles_of_isValue h hn]
  exact nofun

theorem parameterObstacles_of_isParameter {params : List Node}
    (hp : ∀ param ∈ params, param.IsParameter may) :
    params.flatMap (Node.parameterObstacles policy) = [] := by
  apply List.flatMap_eq_nil_iff.2
  intro param hm
  have shape := hp param hm
  cases param with
  | ident => rfl
  | binding name value => exact value.valueObstacles_of_isValue h shape
  | _ => exact shape.elim

theorem selectorObstacles_of_areValues {selectors : List Selector}
    (hs : ∀ selector ∈ selectors, AreValues may selector.segments) :
    selectors.flatMap (valueObstacles policy ·.segments) = [] :=
  List.flatMap_eq_nil_iff.2 fun selector hm => valueObstacles_of_areValues h _ (hs selector hm)

theorem foreseen_loopObstacles {key : Option String} {source : Expression} {line : Nat}
    (hs : source.IsValue may) :
    ∀ o ∈ loopObstacles policy key source line, o.Foreseen may := by
  unfold loopObstacles
  rw [valueObstacles_of_areValues h _ hs, List.append_nil]
  split
  · exact foreseen_obstacles _ line
  · exact nofun

end

/-! ## Statements -/

mutual

theorem Node.foreseen_of_isStatement (h : may.unsupported → policy = .lenient) :
    ∀ node : Node, node.IsStatement may → ∀ o ∈ node.statementObstacles policy, o.Foreseen may
  | .importRule path line, hn => by
    cases path with
    | nil => exact absurd rfl hn
    | cons => exact nofun
  | .group selectors ⟨nodes, line⟩, ⟨bare, hs, hn⟩ => by
    show ∀ o ∈ _ ++ selectors.flatMap _ ++ _, _
    rw [selectorObstacles_of_areValues h hs, List.append_nil]
    refine List.forall_mem_append.2 ⟨?_, foreseen_of_areStatements h nodes hn⟩
    split
    · next none =>
      intro o ho
      cases List.mem_singleton.1 ho
      exact bare (List.isEmpty_iff.1 none)
    · exact nofun
  | .property segments value _, ⟨hs, hv⟩ => by
    show ∀ o ∈ valueObstacles policy segments ++ valueObstacles policy value.nodes, _
    rw [valueObstacles_of_areValues h _ hs, valueObstacles_of_areValues h _ hv]
    exact nofun
  | .binding name value _ _ line, hn => by
    have assigned := value.foreseen_of_isValue h
    cases value with
    | definition inner params b number =>
      obtain ⟨params, _⟩ := params
      obtain ⟨nodes, _⟩ := b
      show ∀ o ∈ params.flatMap _ ++ statementObstacles policy nodes, _
      rw [parameterObstacles_of_isParameter h hn.1]
      exact foreseen_of_areStatements h nodes hn.2
    | _ => exact assigned hn
  | .definition _ ⟨params, _⟩ ⟨nodes, _⟩ _, hn => by
    show ∀ o ∈ params.flatMap _ ++ statementObstacles policy nodes, _
    rw [parameterObstacles_of_isParameter h hn.1]
    exact foreseen_of_areStatements h nodes hn.2
  | .conditional condition ⟨nodes, _⟩ alternatives _, ⟨hc, hn, ha⟩ => by
    show ∀ o ∈ condition.valueObstacles policy ++ _ ++ _, _
    rw [condition.valueObstacles_of_isValue h hc]
    exact List.forall_mem_append.2
      ⟨foreseen_of_areStatements h nodes hn, foreseen_of_areAlternatives h alternatives ha⟩
  | .loop _ key source ⟨nodes, _⟩ line, hn =>
    List.forall_mem_append.2
      ⟨foreseen_loopObstacles h hn.1, foreseen_of_areStatements h nodes hn.2⟩
  | .unsupported kind line, _ => foreseen_obstacles kind line
  | .expression e, hn => (Node.expression e).foreseen_of_isValue h hn
  | .call name arguments line, hn => (Node.call name arguments line).foreseen_of_isValue h hn
  | .binary op left right line, hn => (Node.binary op left right line).foreseen_of_isValue h hn
  | .unary op operand line, hn => (Node.unary op operand line).foreseen_of_isValue h hn
  | .ident _ _ _ _, _ | .literal _, _ | .measure _ _ _, _ | .boolean _ _, _ | .color _ _, _ => nofun

theorem foreseen_of_areAlternatives (h : may.unsupported → policy = .lenient) :
    ∀ nodes : List Node, AreAlternatives may nodes →
      ∀ o ∈ alternativeObstacles policy nodes, o.Foreseen may
  | [], _ => nofun
  | .conditional condition ⟨nodes, _⟩ alternatives _ :: rest, ⟨hc, hn, ha, hr⟩ => by
    show ∀ o ∈ condition.valueObstacles policy ++ _ ++ _ ++ _, _
    rw [condition.valueObstacles_of_isValue h hc]
    refine List.forall_mem_append.2 ⟨?_, foreseen_of_areAlternatives h rest hr⟩
    exact List.forall_mem_append.2
      ⟨foreseen_of_areStatements h nodes hn, foreseen_of_areAlternatives h alternatives ha⟩
  | .block ⟨nodes, _⟩ :: rest, ⟨hn, hr⟩ => List.forall_mem_append.2
    ⟨foreseen_of_areStatements h nodes hn, foreseen_of_areAlternatives h rest hr⟩

theorem foreseen_of_areStatements (h : may.unsupported → policy = .lenient) :
    ∀ nodes : List Node, AreStatements may nodes →
      ∀ o ∈ statementObstacles policy nodes, o.Foreseen may
  | [], _ => nofun
  | node :: rest, hn => List.forall_mem_append.2
    ⟨node.foreseen_of_isStatement h hn.1, foreseen_of_areStatements h rest hn.2⟩

end

end StylusToScss
