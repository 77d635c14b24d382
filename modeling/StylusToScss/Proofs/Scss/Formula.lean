import StylusToScss.Proofs.Token.Cutting
import StylusToScss.Proofs.Value.Leaves
import StylusToScss.Scss.Value

/-!
# Formulas

A formula is a tree of operators over variables and numbers that its text can be read back from
(`Node.Formula`). Writing a binary operation adds no parentheses, so an operation may stand bare
only where its operator binds; the trees that are read from a source are of this kind. A hyphen that
is written right before a hyphen or a letter starts a name, so no minus sign stands there.

Two formulas are the same if they differ in how operators are spelled, in line numbers, in the
parentheses that writing adds behind a sign, in the sign of a number that is written as an operator,
or in the sign of a zero: `Node.canonical` is what is left then.
-/

namespace StylusToScss

/-! ## Which trees -/

/-- A name with one dollar sign in front and nothing in it that ends a name. -/
def IsVariableName (name : String) : Prop :=
  ∃ tail, name.toList = '$' :: tail ∧ tail.head? ≠ some '$' ∧ Lexeme.nameTail tail = tail

/-- A unit that is read back: a percent sign or letters, or no unit. -/
def IsUnitName (unit : Option String) : Prop :=
  ∀ letters ∈ unit, letters = "%" ∨ letters ≠ "" ∧ ∀ c ∈ letters.toList, c.isAlpha = true

/-- The text of the node starts with a hyphen or with a word. -/
def Node.startsName : Node → Bool
  | .unary op _ _ => op != "+"
  | .measure (.finite negative rank) _ _ => Binary64.shownSign negative rank
  | _ => false

/-- A tree of operators over variables and numbers, with and without parentheses, whose operations
stand bare only where their operators bind, and without a minus sign right before a name. -/
inductive Node.Formula : Node → Prop
  | name {name : String} {line : Nat} (variable_ : IsVariableName name) : Formula (.name name line)
  | measure {value : Binary64} {unit : Option String} {line : Nat}
      (finite : value.isFinite = true) (lettered : IsUnitName unit) :
      Formula (.measure value unit line)
  | unary {op : String} {operand : Node} {line : Nat} (sign : op ∈ ["!", "not", "-", "+"])
      (apart : op = "-" → operand.startsName = false) (h : Formula operand) :
      Formula (.unary op operand line)
  | binary {op : String} {left right : Node} {line : Nat} (known : tightness op ≠ 0)
      (bindsLeft : ∀ inner ∈ left.operation?, BindsLeft inner op)
      (bindsRight : ∀ inner ∈ right.operation?, BindsRight inner op)
      (hl : Formula left) (hr : Formula right) : Formula (.binary op left right line)
  | parenthesized {node : Node} {line : Nat} (h : Formula node) :
      Formula (.expression ⟨[node], false, true, line⟩)

/-! ## When two of them are the same -/

namespace Binary64

/-- The number with the other sign. -/
def negated : Binary64 → Binary64
  | .finite negative rank => .finite (!negative) rank
  | .infinite negative => .infinite (!negative)
  | .nan => .nan

/-- The number as a value, which is the same for both zeros. -/
def asValue (x : Binary64) : Binary64 := if x.isZero then zero false else x

theorem asValue_of_shownSign (negative : Bool) (rank : Fin rankLimit) :
    (Binary64.finite negative rank).asValue = .finite (shownSign negative rank) rank := by
  unfold asValue shownSign
  by_cases none : rank.val = 0
  · obtain rfl : rank = ⟨0, by decide⟩ := Fin.ext none
    cases negative <;> rfl
  · cases negative <;> simp [isZero, none]

end Binary64

/-- A bare binary operation in parentheses, and any other node as it is. -/
def Node.enclosed : Node → Node
  | .binary op left right line => .expression ⟨[.binary op left right line], false, true, 0⟩
  | node => node

/-- An operator before an operand. A minus sign before a number is the sign of the number. -/
def signed (op : String) (operand : Node) : Node :=
  match op, operand with
  | "-", .measure value unit _ => .measure value.negated.asValue unit 0
  | op, operand => .unary op operand 0

mutual

/-- The tree with operators in the spelling of the output, without line numbers, with the
parentheses that a bare operation gets behind an operator, and with signs taken into numbers. -/
def Node.canonical : Node → Node
  | .binary op left right _ => .binary (outputOperator op) left.canonical right.canonical 0
  | .unary op operand _ => signed (outputOperator op) operand.canonical.enclosed
  | .measure value unit _ => .measure value.asValue unit 0
  | .ident name interpolated lookup _ => .ident name interpolated lookup 0
  | .expression ⟨nodes, isList, parenthesized, _⟩ =>
    .expression ⟨canonicalNodes nodes, isList, parenthesized, 0⟩
  | node => node

/-- The nodes of a list, each in canonical form. -/
def canonicalNodes : List Node → List Node
  | [] => []
  | node :: rest => node.canonical :: canonicalNodes rest

end

theorem operation?_signed (op : String) (operand : Node) :
    (signed op operand).operation? = none := by
  unfold signed
  split <;> rfl

theorem Node.operation?_canonical (node : Node) :
    node.canonical.operation? = node.operation?.map outputOperator := by
  cases node with
  | unary op operand line =>
    rw [canonical, operation?_signed]
    rfl
  | expression e => cases e; rfl
  | _ => rfl

theorem Node.enclosed_of_operation? {node : Node} (single : node.operation? = none) :
    node.enclosed = node := by
  cases node with
  | binary op left right line => cases single
  | _ => rfl

theorem Node.operation?_enclosed (node : Node) : node.enclosed.operation? = none := by
  cases node <;> rfl

theorem Node.canonical_enclosed (node : Node) :
    node.enclosed.canonical = node.canonical.enclosed := by
  cases node with
  | binary op left right line => rfl
  | unary op operand line =>
    exact (Node.enclosed_of_operation? (operation?_signed _ _)).symm
  | expression e => cases e; rfl
  | _ => rfl

end StylusToScss
