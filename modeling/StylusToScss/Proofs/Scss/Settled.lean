import StylusToScss.Proofs.Scss.Variables

/-!
# Values without lookups

The walk remembers the properties that have been printed (`Names.Hold`). A lookup takes the value of
the last one of its name, so a value is written as one with literals in the places of its lookups
(`Node.settled`), for which no property needs to be known.
-/

namespace StylusToScss

/-! ## The properties printed before -/

/-- A property that has been printed: its name, and the text of its value. -/
structure Declared where
  name : String
  text : String
  deriving DecidableEq, Repr

/-- The value of the last property of a name. -/
def lastText? (declared : List Declared) (name : String) : Option String :=
  (declared.reverse.find? (·.name == name)).map (·.text)

theorem lastText?_snoc (declared : List Declared) (property text name : String) :
    lastText? (declared ++ [⟨property, text⟩]) name =
      if name = property then some text else lastText? declared name := by
  unfold lastText?
  rw [List.reverse_append, List.reverse_singleton, List.singleton_append, List.find?_cons]
  by_cases same : name = property
  · simp [same]
  · have other : (property == name) = false := beq_false_of_ne (Ne.symm same)
    simp [same, other]

/-- The last property of a name is the one with no other behind it. -/
theorem lastText?_eq_some_iff {declared : List Declared} {name text : String} :
    lastText? declared name = some text ↔
      ∃ before after, declared = before ++ ⟨name, text⟩ :: after ∧ ∀ d ∈ after, d.name ≠ name := by
  unfold lastText?
  rw [Option.map_eq_some_iff]
  constructor
  · rintro ⟨⟨property, value⟩, found, rfl⟩
    obtain ⟨same, later, earlier, split, others⟩ := List.find?_eq_some_iff_append.1 found
    obtain rfl : property = name := by simpa using same
    refine ⟨earlier.reverse, later.reverse, ?_, fun d mem => ?_⟩
    · rw [← List.reverse_reverse declared, split]
      simp
    · simpa using others d (List.mem_reverse.1 mem)
  · rintro ⟨before, after, rfl, later⟩
    refine ⟨⟨name, text⟩, List.find?_eq_some_iff_append.2 ⟨BEq.rfl, ?_⟩, rfl⟩
    exact ⟨after.reverse, before.reverse, by simp, fun d mem => by
      simpa using later d (List.mem_reverse.1 mem)⟩

theorem lastText?_eq_none_iff {declared : List Declared} {name : String} :
    lastText? declared name = none ↔ ∀ d ∈ declared, d.name ≠ name := by
  simp [lastText?]

/-- The names known hold the variables bound before and the properties printed before. -/
structure Names.Hold (names : Names) (bound : List String) (declared : List Declared) : Prop where
  binders : names.Knows bound
  properties : ∀ name, names.property? name = lastText? declared name

namespace Names.Hold

variable {names : Names} {bound : List String} {declared : List Declared}

theorem none : Names.none.Hold [] [] := ⟨.none, fun _ => rfl⟩

theorem bind (h : names.Hold bound declared) (name : String) :
    (names.bind name).Hold (bound ++ [name]) declared :=
  ⟨h.binders.bind name, h.properties⟩

theorem record (h : names.Hold bound declared) (property text : String) :
    (names.record property text).Hold bound (declared ++ [⟨property, text⟩]) := by
  refine ⟨h.binders.record property text, fun name => ?_⟩
  rw [property?_record, lastText?_snoc, h.properties]

end Names.Hold

/-- The names known where only variables have been bound. -/
def Names.variables (bound : List String) : Names :=
  { Names.none with bound := bound.map bareName }

theorem Names.knows_variables (bound : List String) : (Names.variables bound).Knows bound := by
  intro name
  simp [Names.variables, Names.isVariable]

/-! ## Values without lookups -/

section
variable (law : String → Bool → String)

mutual

/-- A value with a literal in the place of each lookup. -/
def Node.settled : Node → Node
  | .expression ⟨nodes, isList, parenthesized, line⟩ =>
    .expression ⟨settledAll nodes, isList, parenthesized, line⟩
  | .ident name interpolated true line => .plain (law name interpolated) line
  | .binding name value interpolated lookup line =>
    .binding name value.settled interpolated lookup line
  | .call name ⟨nodes, start⟩ line => .call name ⟨settledAll nodes, start⟩ line
  | .arguments ⟨nodes, line⟩ => .arguments ⟨settledAll nodes, line⟩
  | .params ⟨nodes, line⟩ => .params ⟨settledAll nodes, line⟩
  | .binary op left right line => .binary op left.settled right.settled line
  | .unary op operand line => .unary op operand.settled line
  | node => node

/-- Values with a literal in the place of each lookup. -/
def settledAll : List Node → List Node
  | [] => []
  | node :: rest => node.settled :: settledAll rest

end

theorem settledAll_eq_map (nodes : List Node) :
    settledAll law nodes = nodes.map (Node.settled law) := by
  induction nodes with
  | nil => rfl
  | cons node rest ih => rw [settledAll, ih, List.map_cons]

theorem keepsForms_settled : KeepsForms (Node.settled law)
    fun e => { e with nodes := settledAll law e.nodes } where
  kept node := by
    cases node with
    | expression e => cases e; exact .expression ⟨_, _, _, _⟩
    | binding => exact .binding
    | call _ arguments => cases arguments; exact .call
    | binary => exact .binary
    | ident _ _ lookup => cases lookup <;> exact .other rfl rfl
    | arguments arguments | params arguments => cases arguments; exact .other rfl rfl
    | _ => exact .other rfl rfl
  nodes e := settledAll_eq_map law e.nodes
  parenthesized _ := rfl

/-- A bare name is none that is looked up. -/
theorem Node.settled_eq_bare {node : Node} {name : String} {line : Nat}
    (h : node.settled law = .ident name false false line) :
    node = .ident name false false line := by
  unfold settled at h
  split at h
  case h_9 => exact h
  all_goals cases h

end

/-- The second view knows the same variables, and the law is the text of lookups in the first. -/
structure View.Settles (view view' : View) (law : String → Bool → String) : Prop where
  binders : ∀ name, view'.names.isVariable name = view.names.isVariable name
  inDefinition : view'.inDefinition = view.inDefinition
  policy : view'.policy = view.policy
  looked : ∀ name interpolated, law name interpolated = view.resolve name interpolated true

section
variable {view view' : View} {law : String → Bool → String}

theorem View.Settles.resolve (h : view.Settles view' law) (name : String) (interpolated : Bool) :
    view'.resolve name interpolated false = view.resolve name interpolated false := by
  unfold View.resolve
  simp only [Bool.false_eq_true, if_false, h.binders]

mutual

theorem Node.value_settled (h : view.Settles view' law) : ∀ node : Node,
    (node.settled law).value view' = node.value view
  | .expression ⟨nodes, _, _, _⟩ => by
    rw [Node.settled, Node.value, Node.value, Expression.value, Expression.value,
      values_settled h nodes]
  | .ident name interpolated true line => by
    rw [Node.settled, Node.value, h.looked]
    rfl
  | .ident name interpolated false line =>
    congrArg (fun text => Except.ok (Fragment.plain text)) (h.resolve name interpolated)
  | .binding _ node _ _ _ => by
    rw [Node.settled, Node.value, Node.value, node.value_settled h]
  | .call _ ⟨nodes, _⟩ _ => by
    rw [Node.settled, Node.value, Node.value, argumentValues_settled h nodes]
  | .arguments ⟨nodes, _⟩ | .params ⟨nodes, _⟩ => by
    rw [Node.settled, Node.value, Node.value, argumentValues_settled h nodes]
  | .binary _ left right _ => by
    rw [Node.settled, Node.value, Node.value, left.value_settled h, right.value_settled h]
  | .unary _ operand _ => by
    rw [Node.settled, Node.value, Node.value, operand.value_settled h,
      (keepsForms_settled law).isCompound]
  | .unsupported kind line => by
    show view'.policy.unsupported kind line = view.policy.unsupported kind line
    rw [h.policy]
  | .literal _ | .measure _ _ _ | .boolean _ _ | .color _ _ | .importRule _ _ | .group _ _
  | .selector _ | .block _ | .property _ _ _ | .conditional _ _ _ _ | .loop _ _ _ _ _
  | .definition _ _ _ _ => rfl

theorem values_settled (h : view.Settles view' law) : ∀ nodes : List Node,
    values view' (settledAll law nodes) = values view nodes
  | [] => rfl
  | node :: rest => by
    rw [settledAll, values, values, node.value_settled h, values_settled h rest]

theorem argumentValues_settled (h : view.Settles view' law) : ∀ nodes : List Node,
    argumentValues view' (settledAll law nodes) = argumentValues view nodes
  | [] => rfl
  | node :: rest => by
    have behind := argumentValues_settled h rest
    by_cases bare : ∃ name line, node = .ident name false false line
    · obtain ⟨name, line, rfl⟩ := bare
      show argumentValues view' (.ident name false false line :: settledAll law rest) = _
      rw [argumentValues, argumentValues, behind, h.inDefinition, h.resolve]
    · have other : ∀ name line, node ≠ .ident name false false line :=
        fun name line same => bare ⟨name, line, same⟩
      rw [settledAll, argumentValues_cons, argumentValues_cons other, node.value_settled h, behind]
      exact fun name line same => other name line (node.settled_eq_bare law same)

end

theorem segmentsValue_settled (h : view.Settles view' law) (segments : List Node) :
    segmentsValue view' (settledAll law segments) = segmentsValue view segments := by
  unfold segmentsValue
  rw [values_settled h]

theorem loopItem_settled (h : view.Settles view' law) (node : Node) :
    loopItem view' (node.settled law) = loopItem view node := by
  fun_induction loopItem view node with
  | case1 => rfl
  | case2 node isList line ih => exact ih
  | case3 node bare single =>
    rw [← node.value_settled h, loopItem]
    · exact fun name line same => bare name line (node.settled_eq_bare law same)
    · intro inner isList line same
      obtain ⟨_, _, _, rfl⟩ := (keepsForms_settled law).single_of same
      exact single _ _ _ rfl

theorem loopItems_settled (h : view.Settles view' law) (nodes : List Node) :
    (settledAll law nodes).mapM (loopItem view') = nodes.mapM (loopItem view) := by
  induction nodes with
  | nil => rfl
  | cons node rest ih =>
    rw [settledAll, List.mapM_cons, List.mapM_cons, loopItem_settled h, ih]

end

end StylusToScss
