import Mathlib.Data.List.Basic
import StylusToScss.Value.OfTokens

/-!
# What a value says, from left to right

The tree of a value can be read back: `Node.leaves` is the list of the tokens it stands for, each
with what it is to the tree. Nothing here looks at how values are read from tokens.

* `Node.IsGrouped`: the tree is one of the grammar of values, and its operations nest as tightly as
  their operators bind.
* `Spells`: the tokens up to some place are what a list of leaves says.
-/

namespace StylusToScss

/-! ## Leaves -/

/-- What a token is to the value it stands in: a name used as an operand, the name of a call, or
anything else. -/
inductive Role where
  | operand
  | callee
  | other
  deriving DecidableEq, Repr

/-- A token of a tree: its kind, and what it is to the tree. -/
structure Leaf where
  kind : Kind
  role : Role
  deriving DecidableEq, Repr

/-- A leaf that is no name of its own. -/
def Leaf.plain (kind : Kind) : Leaf := ⟨kind, .other⟩

/-- The kind of a token as far as a tree keeps it. The three tokens that stand between a name and
its value are one. -/
def Kind.merged : Kind → Kind
  | .conditionalAssign => .assign
  | .colon => .assign
  | kind => kind

/-- The tokens that an operator is written with. -/
def operatorKinds (op : String) : List Kind :=
  match op with
  | "||" => [.orOr]
  | "&&" => [.andAnd]
  | "==" => [.equal]
  | "!=" => [.notEqual]
  | "<" => [.less]
  | ">" => [.greater]
  | "<=" => [.lessEqual]
  | ">=" => [.greaterEqual]
  | ".." => [.dotDot]
  | "..." => [.dotDotDot]
  | "+" => [.plus]
  | "-" => [.minus]
  | "*" => [.star]
  | "/" => [.slash]
  | "%" => [.percent]
  | "**" => [.starStar]
  | "!" => [.bang]
  | "is not" => [.ident "is", .ident "not"]
  | word => [.ident word]

/-- The tokens of a text without quotes: a mark such as `!important`, a word after `#`, or an
address. -/
def plainKinds (text : String) : List Kind :=
  match text.toList with
  | '!' :: word => [.bang, .ident (String.ofList word)]
  | '#' :: word => [.hash (String.ofList word)]
  | _ => [.url text]

/-- Leaves that are no names of their own. -/
def plainLeaves (kinds : List Kind) : List Leaf := kinds.map .plain

mutual

/-- The leaves of a value. Nodes that are read only as statements have none. -/
def Node.leaves : Node → List Leaf
  | .ident name _ lookup _ => if lookup then [.plain (.atWord name)] else [⟨.ident name, .operand⟩]
  | .binding name value _ _ _ => .plain (.ident name) :: .plain .assign :: value.leaves
  | .expression e => e.leaves
  | .call name ⟨nodes, _⟩ _ =>
    ⟨.ident name, .callee⟩ :: .plain .leftParen :: (listLeaves true nodes ++ [.plain .rightParen])
  | .binary op left right _ => left.leaves ++ (plainLeaves (operatorKinds op) ++ right.leaves)
  | .unary op operand _ => plainLeaves (operatorKinds op) ++ operand.leaves
  | .literal ⟨value, some quote, _⟩ => [.plain (.string value quote)]
  | .literal ⟨value, none, _⟩ => plainLeaves (plainKinds value)
  | .measure value unit _ => [.plain (.number value (unit.getD ""))]
  | .boolean value _ => [.plain (.ident (if value then "true" else "false"))]
  | .color raw _ => plainLeaves (plainKinds raw)
  | _ => []

/-- The leaves of an expression. -/
def Expression.leaves : Expression → List Leaf
  | ⟨nodes, isList, parenthesized, _⟩ =>
    if parenthesized then .plain .leftParen :: (listLeaves isList nodes ++ [.plain .rightParen])
    else listLeaves isList nodes

/-- The leaves of nodes one behind the other, with commas between them or not. -/
def listLeaves (commas : Bool) : List Node → List Leaf
  | [] => []
  | node :: rest => node.leaves ++ furtherLeaves commas rest

/-- The leaves of nodes that stand behind another one. -/
def furtherLeaves (commas : Bool) : List Node → List Leaf
  | [] => []
  | node :: rest =>
    (if commas then [.plain .comma] else []) ++ (node.leaves ++ furtherLeaves commas rest)

end

@[simp] theorem Node.leaves_expression (expression : Expression) :
    (Node.expression expression).leaves = expression.leaves := by
  cases expression
  rfl

theorem furtherLeaves_false (nodes : List Node) :
    furtherLeaves false nodes = listLeaves false nodes := by
  cases nodes <;> rfl

theorem furtherLeaves_true {nodes : List Node} (some : nodes ≠ []) :
    furtherLeaves true nodes = .plain .comma :: listLeaves true nodes := by
  cases nodes with
  | nil => exact absurd rfl some
  | cons node rest => rfl

/-! ## Grouping -/

/-- How tightly an operator binds, from the loosest to the tightest. -/
def tightness (op : String) : Nat :=
  match op with
  | "||" | "or" => 1
  | "&&" | "and" => 2
  | "==" | "!=" | "is" | "isnt" | "is not" => 3
  | "<" | ">" | "<=" | ">=" => 4
  | ".." | "..." => 5
  | "+" | "-" => 6
  | "*" | "/" | "%" => 7
  | "**" => 8
  | _ => 0

/-- An operation may stand bare on the left of another one: it binds at least as tightly, and more
tightly than a power. -/
def BindsLeft (inner outer : String) : Prop :=
  if outer = "**" then tightness outer < tightness inner else tightness outer ≤ tightness inner

/-- An operation may stand bare on the right of another one: it binds more tightly, or at least as
tightly as a power. -/
def BindsRight (inner outer : String) : Prop :=
  if outer = "**" then tightness outer ≤ tightness inner else tightness outer < tightness inner

/-- The operator of a binary operation without parentheses. -/
def Node.operation? : Node → Option String
  | .binary op _ _ _ => some op
  | _ => none

mutual

/-- The node is a value of the grammar, and its operations are grouped as their operators bind: the
operations on the left and on the right of another one may stand there bare, and no operation stands
bare behind a sign. -/
def Node.IsGrouped : Node → Prop
  | .binary op left right _ =>
    (∀ inner ∈ left.operation?, BindsLeft inner op) ∧
      (∀ inner ∈ right.operation?, BindsRight inner op) ∧ left.IsGrouped ∧ right.IsGrouped
  | .unary _ operand _ => operand.operation? = none ∧ operand.IsGrouped
  | .binding _ value _ _ _ => value.IsGrouped
  | .expression ⟨nodes, _, _, _⟩ => nodes ≠ [] ∧ AreGrouped nodes
  | .call _ ⟨nodes, _⟩ _ => AreGrouped nodes
  | .ident _ _ _ _ | .literal _ | .measure _ _ _ | .boolean _ _ | .color _ _ => True
  | _ => False

/-- All of the nodes are values of the grammar. -/
def AreGrouped : List Node → Prop
  | [] => True
  | node :: rest => node.IsGrouped ∧ AreGrouped rest

end

/-- The expression holds values of the grammar. -/
def Expression.IsGrouped (expression : Expression) : Prop :=
  expression.nodes ≠ [] ∧ AreGrouped expression.nodes

theorem Node.isGrouped_expression {expression : Expression} :
    (Node.expression expression).IsGrouped ↔ expression.IsGrouped := by
  cases expression
  rfl

theorem areGrouped_iff {nodes : List Node} : AreGrouped nodes ↔ ∀ node ∈ nodes, node.IsGrouped := by
  induction nodes with
  | nil => simp [AreGrouped]
  | cons node rest ih => simp [AreGrouped, ih]

/-! ## The last leaf -/

/-- There is a last leaf, and it is no comma. -/
def EndsInValue (leaves : List Leaf) : Prop :=
  ∃ leaf ∈ leaves.getLast?, (leaf.kind == .comma) = false

theorem EndsInValue.append {b : List Leaf} (a : List Leaf) (h : EndsInValue b) :
    EndsInValue (a ++ b) := by
  obtain ⟨leaf, last, other⟩ := h
  refine ⟨leaf, ?_, other⟩
  rw [List.getLast?_append, last]
  rfl

theorem endsInValue_single {leaf : Leaf} (h : (leaf.kind == .comma) = false) : EndsInValue [leaf] :=
  ⟨leaf, rfl, h⟩

theorem endsInValue_plainKinds (text : String) : EndsInValue (plainLeaves (plainKinds text)) := by
  unfold plainKinds
  split
  · exact (endsInValue_single rfl).append [.plain .bang]
  · exact endsInValue_single rfl
  · exact endsInValue_single rfl

mutual

/-- What a value says does not end with a comma. -/
theorem Node.endsInValue_leaves : ∀ node : Node, node.IsGrouped → EndsInValue node.leaves
  | .ident name _ lookup _, _ => by
    rw [Node.leaves]
    split
    · exact endsInValue_single rfl
    · exact endsInValue_single rfl
  | .binding name value _ _ _, h =>
    (value.endsInValue_leaves h).append [.plain (.ident name), .plain .assign]
  | .expression ⟨nodes, isList, parenthesized, _⟩, h => by
    rw [Node.leaves, Expression.leaves]
    split
    · exact (endsInValue_single rfl).append (.plain .leftParen :: listLeaves isList nodes)
    · exact endsInValue_listLeaves isList nodes h.1 h.2
  | .call name ⟨nodes, _⟩ _, _ => (endsInValue_single rfl).append
    (⟨.ident name, .callee⟩ :: .plain .leftParen :: listLeaves true nodes)
  | .binary op left right _, h => by
    rw [Node.leaves, ← List.append_assoc]
    exact (right.endsInValue_leaves h.2.2.2).append _
  | .unary op operand _, h => (operand.endsInValue_leaves h.2).append _
  | .literal ⟨_, some _, _⟩, _ => endsInValue_single rfl
  | .literal ⟨value, none, _⟩, _ => endsInValue_plainKinds value
  | .measure _ _ _, _ => endsInValue_single rfl
  | .boolean _ _, _ => endsInValue_single rfl
  | .color raw _, _ => endsInValue_plainKinds raw

theorem endsInValue_listLeaves (commas : Bool) : ∀ nodes : List Node, nodes ≠ [] →
    AreGrouped nodes → EndsInValue (listLeaves commas nodes)
  | [], notNil, _ => absurd rfl notNil
  | [node], _, h => by
    rw [listLeaves, furtherLeaves, List.append_nil]
    exact node.endsInValue_leaves h.1
  | node :: next :: rest, _, h => by
    have behind := endsInValue_listLeaves commas (next :: rest) (List.cons_ne_nil _ _) h.2
    rw [listLeaves, furtherLeaves, ← List.append_assoc]
    exact behind.append _

end

/-! ## Tokens that leaves say -/

/-- The token in front of `behind` is what the leaf says. A name is that of a call exactly where an
opening parenthesis touches it. -/
structure Leaf.Fits (leaf : Leaf) (token : Token) (behind : List Token) : Prop where
  kind : leaf.kind = token.kind.merged
  called : leaf.role ≠ .other →
    (leaf.role = .callee ↔
      ∃ next ∈ behind.head?, next.kind = .leftParen ∧ token.touches next = true)

/-- The tokens up to `rest` are what the leaves say. -/
inductive Spells : List Leaf → List Token → List Token → Prop
  | nil {rest : List Token} : Spells [] rest rest
  | cons {leaf : Leaf} {leaves : List Leaf} {token : Token} {tokens rest : List Token}
      (fits : leaf.Fits token tokens) (more : Spells leaves tokens rest) :
      Spells (leaf :: leaves) (token :: tokens) rest

namespace Spells

variable {a b leaves : List Leaf} {kind : Kind} {token : Token} {tokens middle rest : List Token}

theorem append (ha : Spells a tokens middle) (hb : Spells b middle rest) :
    Spells (a ++ b) tokens rest := by
  induction ha with
  | nil => exact hb
  | cons fits _ ih => exact .cons fits (ih hb)

/-- A token that is no name of its own, in front of others. -/
theorem plain (same : token.kind.merged = kind) (more : Spells leaves tokens rest) :
    Spells (.plain kind :: leaves) (token :: tokens) rest :=
  .cons ⟨same.symm, fun some => absurd rfl some⟩ more

theorem suffix (h : Spells leaves tokens rest) : rest <:+ tokens := by
  induction h with
  | nil => exact List.suffix_rfl
  | cons _ _ ih => exact ih.trans (List.suffix_cons _ _)

/-- Where nothing is left, the leaves are the kinds of the tokens, in order. -/
theorem kinds (h : Spells leaves tokens []) :
    leaves.map (·.kind) = tokens.map (·.kind.merged) := by
  generalize ended : [] = rest at h
  induction h with
  | nil => rw [← ended]; rfl
  | cons fits _ ih => rw [List.map_cons, List.map_cons, fits.kind, ih ended]

/-- Each leaf fits the token at its place. -/
theorem fits {before after : List Token} {leaf : Leaf} (h : Spells leaves tokens [])
    (split : tokens = before ++ token :: after) (here : leaves[before.length]? = some leaf) :
    leaf.Fits token after := by
  generalize ended : [] = rest at h
  induction h generalizing before with
  | nil => simp [← ended] at split
  | cons fits _ ih =>
    cases before with
    | nil =>
      cases split
      cases here
      exact fits
    | cons first before =>
      cases split
      exact ih rfl here ended

end Spells

end StylusToScss
