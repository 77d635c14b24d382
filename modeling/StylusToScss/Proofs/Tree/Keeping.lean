import StylusToScss.Scss.Statement

/-!
# Maps that keep the forms of nodes

Some nodes are written by their form: an operand by whether it is compound, a statement by whether
it is a call, the value of a property by whether it binds a variable, and the source of a loop by
whether it is a range. Such a form is made of expressions, bindings, calls and operations, one
inside the other. A map of nodes keeps all forms if it maps the parts of these four and makes
nothing else one of them (`KeepsForms`), whatever it does to other nodes and to line numbers.
-/

namespace StylusToScss

/-! ## What decides a form -/

/-- Whether forms are made of the node. -/
def Node.inForm : Node → Bool
  | .expression _ | .binding _ _ _ _ _ | .call _ _ _ | .binary _ _ _ _ => true
  | _ => false

/-- Whether the node is a call with no expression around it. -/
def Node.bareCall : Node → Bool
  | .call _ _ _ => true
  | _ => false

/-- What the node binds as the only one of a property's value. -/
def Node.bound? : Node → Option (String × Expression)
  | .binding name (.expression e) _ _ _ => some (name, e)
  | _ => none

/-- The range that the node is as the only one of a loop's source. -/
def Node.bounds? : Node → Option (Node × String × Node)
  | .binary op left right _ =>
    if op = ".." then some (left, "through", right)
    else if op = "..." then some (left, "to", right)
    else none
  | _ => none

theorem isCompound_expression (e : Expression) :
    isCompound (.expression e) = (!e.parenthesized && decide (1 < e.nodes.length)) := by
  cases e
  rfl

theorem isCall_expression (e : Expression) :
    isCall (.expression e) = (!e.parenthesized && e.single?.any Node.bareCall) := by
  obtain ⟨nodes, isList, parenthesized, line⟩ := e
  match nodes with
  | [] | _ :: _ :: _ => simp [isCall, Expression.single?]
  | [node] => cases node <;> cases parenthesized <;> rfl

theorem shorthand?_eq_bind (value : Expression) :
    shorthand? value = value.single?.bind Node.bound? := by
  obtain ⟨nodes, isList, parenthesized, line⟩ := value
  match nodes with
  | [] | _ :: _ :: _ => simp [shorthand?, Expression.single?]
  | [node] =>
    cases node with
    | binding name value => cases value <;> rfl
    | _ => rfl

theorem range?_eq_bind (source : Expression) :
    range? source = source.single?.bind Node.bounds? := by
  unfold range?
  split
  · next only => rw [only]; rfl
  · next only => rw [only]; rfl
  · next inclusive exclusive =>
    cases only : source.single? with
    | none => rfl
    | some node =>
      cases node with
      | binary op left right line =>
        have notInclusive : op ≠ ".." := fun same => inclusive _ _ _ (same ▸ only)
        have notExclusive : op ≠ "..." := fun same => exclusive _ _ _ (same ▸ only)
        simp [Node.bounds?, notInclusive, notExclusive]
      | _ => rfl

/-- A node that has no form by itself. -/
structure Node.Formless (node : Node) : Prop where
  compound : isCompound node = false
  call : isCall node = false
  bareCall : node.bareCall = false
  bound : node.bound? = none
  bounds : node.bounds? = none

theorem Node.formless {node : Node} (plain : node.inForm = false) : node.Formless := by
  cases node with
  | expression | binding | call | binary => cases plain
  | _ => exact ⟨rfl, rfl, rfl, rfl, rfl⟩

theorem Node.bound?_binding {name : String} {value : Node} {interpolated lookup : Bool} {line : Nat}
    (plain : value.inForm = false) :
    (Node.binding name value interpolated lookup line).bound? = none := by
  cases value with
  | expression => cases plain
  | _ => rfl

/-! ## Keeping forms -/

/-- If forms are made of one of the two nodes, the second is the first with its parts mapped: nodes
by `f`, expressions by `g`. -/
inductive FormKept (f : Node → Node) (g : Expression → Expression) : Node → Node → Prop
  | expression (e : Expression) : FormKept f g (.expression e) (.expression (g e))
  | binding {name : String} {value : Node} {interpolated lookup : Bool} {line line' : Nat} :
    FormKept f g (.binding name value interpolated lookup line)
      (.binding name (f value) interpolated lookup line')
  | call {name : String} {arguments arguments' : Arguments} {line line' : Nat} :
    FormKept f g (.call name arguments line) (.call name arguments' line')
  | binary {op : String} {left right : Node} {line line' : Nat} :
    FormKept f g (.binary op left right line) (.binary op (f left) (f right) line')
  | other {node node' : Node} (plain : node.inForm = false) (plain' : node'.inForm = false) :
    FormKept f g node node'

/-- A map of nodes and one of expressions that keep forms. -/
structure KeepsForms (f : Node → Node) (g : Expression → Expression) : Prop where
  kept : ∀ node, FormKept f g node (f node)
  nodes : ∀ e, (g e).nodes = e.nodes.map f
  parenthesized : ∀ e, (g e).parenthesized = e.parenthesized

namespace KeepsForms

variable {f : Node → Node} {g : Expression → Expression}

/-- Only an expression becomes an expression. -/
theorem expression_of (h : KeepsForms f g) {node : Node} {e : Expression}
    (same : f node = .expression e) :
    ∃ original, node = .expression original ∧ g original = e := by
  have kept := h.kept node
  rw [same] at kept
  cases kept with
  | expression original => exact ⟨original, rfl, rfl⟩
  | other _ plain => cases plain

theorem length_nodes (h : KeepsForms f g) (e : Expression) :
    (g e).nodes.length = e.nodes.length := by
  rw [h.nodes, List.length_map]

/-- Only an expression of one node without parentheses becomes one. -/
theorem single_of (h : KeepsForms f g) {node inner : Node} {isList : Bool} {line : Nat}
    (same : f node = .expression ⟨[inner], isList, false, line⟩) :
    ∃ original list number, node = .expression ⟨[original], list, false, number⟩ := by
  obtain ⟨e, rfl, whole⟩ := h.expression_of same
  have size := h.length_nodes e
  have bare := h.parenthesized e
  rw [whole] at size bare
  obtain ⟨nodes, list, parenthesized, number⟩ := e
  obtain ⟨original, rfl⟩ := List.length_eq_one_iff.1 size.symm
  cases bare
  exact ⟨original, list, number, rfl⟩

theorem single? (h : KeepsForms f g) (e : Expression) : (g e).single? = e.single?.map f := by
  unfold Expression.single?
  rw [h.nodes]
  match e.nodes with
  | [] | [_] | _ :: _ :: _ => rfl

theorem isCompound (h : KeepsForms f g) (node : Node) : isCompound (f node) = isCompound node := by
  have kept := h.kept node
  generalize f node = mapped at kept ⊢
  cases kept with
  | expression e => simp only [isCompound_expression, h.parenthesized, h.length_nodes]
  | binding | call | binary => rfl
  | other plain plain' => rw [(Node.formless plain).compound, (Node.formless plain').compound]

theorem bareCall (h : KeepsForms f g) (node : Node) : (f node).bareCall = node.bareCall := by
  have kept := h.kept node
  generalize f node = mapped at kept ⊢
  cases kept with
  | expression | binding | call | binary => rfl
  | other plain plain' => rw [(Node.formless plain).bareCall, (Node.formless plain').bareCall]

theorem isCall (h : KeepsForms f g) (node : Node) : isCall (f node) = isCall node := by
  have kept := h.kept node
  generalize f node = mapped at kept ⊢
  cases kept with
  | expression e =>
    rw [isCall_expression, isCall_expression, h.parenthesized, h.single?, Option.any_map]
    simp only [h.bareCall]
  | binding | call | binary => rfl
  | other plain plain' => rw [(Node.formless plain).call, (Node.formless plain').call]

theorem bound? (h : KeepsForms f g) (node : Node) :
    (f node).bound? = node.bound?.map fun (name, e) => (name, g e) := by
  have kept := h.kept node
  generalize f node = mapped at kept ⊢
  cases kept with
  | @binding _ value =>
    have keptValue := h.kept value
    generalize f value = mapped at keptValue ⊢
    cases keptValue with
    | expression | binding | call | binary => rfl
    | other plain plain' => rw [Node.bound?_binding plain, Node.bound?_binding plain']; rfl
  | expression | call | binary => rfl
  | other plain plain' =>
    rw [(Node.formless plain).bound, (Node.formless plain').bound]
    rfl

theorem shorthand? (h : KeepsForms f g) (value : Expression) :
    shorthand? (g value) = (shorthand? value).map fun (name, e) => (name, g e) := by
  rw [shorthand?_eq_bind, shorthand?_eq_bind, h.single?]
  cases value.single? with
  | none => rfl
  | some node => exact h.bound? node

theorem bounds? (h : KeepsForms f g) (node : Node) :
    (f node).bounds? = node.bounds?.map fun (left, word, right) => (f left, word, f right) := by
  have kept := h.kept node
  generalize f node = mapped at kept ⊢
  cases kept with
  | @binary op =>
    by_cases inclusive : op = ".."
    · simp [Node.bounds?, inclusive]
    · by_cases exclusive : op = "..." <;> simp [Node.bounds?, inclusive, exclusive]
  | expression | binding | call => rfl
  | other plain plain' =>
    rw [(Node.formless plain).bounds, (Node.formless plain').bounds]
    rfl

theorem range? (h : KeepsForms f g) (source : Expression) : range? (g source) =
    (range? source).map fun (left, word, right) => (f left, word, f right) := by
  rw [range?_eq_bind, range?_eq_bind, h.single?]
  cases source.single? with
  | none => rfl
  | some node => exact h.bounds? node

end KeepsForms
end StylusToScss
