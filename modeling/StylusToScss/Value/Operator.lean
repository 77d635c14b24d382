import StylusToScss.Token.Taken

/-!
# Binary operators

From the loosest to the tightest: or, and, equality, comparison, ranges, sums, products, powers.
Only powers group to the right.

* `operator?` reads an operator: one token, or the two words of `is not`.
-/

namespace StylusToScss

/-- A binary operator: how it is spelled, how tightly it binds, and how it groups. -/
structure Operator where
  spelling : String
  precedence : Nat
  groupsRight : Bool
  deriving DecidableEq, Repr

namespace Operator

/-- An operator that groups to the left. -/
def left (spelling : String) (precedence : Nat) : Operator := ⟨spelling, precedence, false⟩

/-- The least precedence of an operator inside the right operand. -/
def rightPrecedence (op : Operator) : Nat :=
  if op.groupsRight then op.precedence else op.precedence + 1

/-- The operator that is spelled with two words. -/
def isNot : Operator := left "is not" 3

/-- The operator that a single token spells. -/
def ofKind? : Kind → Option Operator
  | .orOr => some (left "||" 1)
  | .andAnd => some (left "&&" 2)
  | .equal => some (left "==" 3)
  | .notEqual => some (left "!=" 3)
  | .less => some (left "<" 4)
  | .greater => some (left ">" 4)
  | .lessEqual => some (left "<=" 4)
  | .greaterEqual => some (left ">=" 4)
  | .dotDot => some (left ".." 5)
  | .dotDotDot => some (left "..." 5)
  | .plus => some (left "+" 6)
  | .minus => some (left "-" 6)
  | .star => some (left "*" 7)
  | .slash => some (left "/" 7)
  | .percent => some (left "%" 7)
  | .starStar => some ⟨"**", 8, true⟩
  | .ident "or" => some (left "or" 1)
  | .ident "and" => some (left "and" 2)
  | .ident "is" => some (left "is" 3)
  | .ident "isnt" => some (left "isnt" 3)
  | _ => none

end Operator

/-- The binary operator at the front of the tokens. -/
def operator? : (tokens : List Token) → Option (Taken 1 Operator tokens)
  | [] => none
  | [token] => (Operator.ofKind? token.kind).map fun op => .first op
  | token :: next :: _ =>
    if token.kind.isWord "is" && next.kind.isWord "not" then
      some (Taken.first Operator.isNot).behind
    else (Operator.ofKind? token.kind).map fun op => .first op

theorem operator?_cons_cons (token next : Token) (rest : List Token) :
    operator? (token :: next :: rest) =
      if token.kind.isWord "is" && next.kind.isWord "not" then
        some (Taken.first Operator.isNot).behind
      else (Operator.ofKind? token.kind).map fun op => .first op := rfl

end StylusToScss
