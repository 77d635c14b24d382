import StylusToScss.Fault
import StylusToScss.Pieces
import StylusToScss.Token.Taken

/-!
# Logical lines

A statement starts with a logical line: the tokens up to a line end, without the semicolons that end
it. What a line is shows in its first tokens, in the blanks between them, and in whether an indented
block follows.

* `lineOf` and `afterLine` cut off a line; `blockFollows` looks for its block.
* `touchingRun` is the length of the part of a line written without blanks.
* `tokenAt` and `tokensBetween` take tokens of a line by index; where there are none, reading fails.
* `Taken.pastLine`, `Taken.pastBlock` and `Taken.ofSkipped` read past them.
-/

namespace StylusToScss

/-- A result of reading that takes no tokens away. -/
abbrev Read (α : Type) := Except (Located ParseFault) α

/-- The token that stands for the end where none is left. -/
def absentToken : Token := ⟨.endOfInput, ⟨0, 0, 0, 0⟩⟩

/-- The first of the tokens. -/
def firstToken (tokens : List Token) : Token := tokens.headD absentToken

/-- A line without the semicolons at its end. -/
def withoutSemicolons (line : List Token) : List Token :=
  (line.reverse.dropWhile fun token => token.kind == .semicolon).reverse

/-- The tokens of the line that starts here. -/
def lineOf (tokens : List Token) : List Token :=
  withoutSemicolons (tokens.takeWhile fun token => !token.kind.endsLine)

/-- The tokens behind the line that starts here. -/
def afterLine (tokens : List Token) : List Token :=
  tokens.dropWhile fun token => !token.kind.endsLine

/-- The tokens from the first one that is no line break. -/
def skipNewlines (tokens : List Token) : List Token :=
  tokens.dropWhile fun token => token.kind == .newline

/-- Whether an indented block starts behind a line. -/
def blockFollows (tokens : List Token) : Bool :=
  (firstToken (skipNewlines tokens)).kind == .indent

/-- The tokens behind the level that `depth` indents have opened. -/
def afterLevels (depth : Nat) : List Token → List Token
  | [] => []
  | token :: rest =>
    match token.kind with
    | .endOfInput => token :: rest
    | .indent => afterLevels (depth + 1) rest
    | .dedent => if depth ≤ 1 then rest else afterLevels (depth - 1) rest
    | _ => afterLevels depth rest

/-- The tokens behind the block that follows, if one does. -/
def afterBlock (tokens : List Token) : List Token :=
  if blockFollows tokens then afterLevels 1 ((skipNewlines tokens).drop 1) else tokens

/-- Whether a line ends with a comma. -/
def endsWithComma (line : List Token) : Bool :=
  match line.getLast? with
  | some token => token.kind == .comma
  | none => false

/-- The failure to take what is not there. -/
def outOfRange {α : Type} : Read α := .error ⟨.outOfRange, 0, 0⟩

/-- The token at an index of a line. -/
def tokenAt (tokens : List Token) (index : Nat) : Read Token :=
  match tokens[index]? with
  | some token => .ok token
  | none => outOfRange

/-- The tokens of a line from one index up to another. -/
def tokensBetween (line : List Token) (start stop : Nat) : Read (List Token) :=
  if start ≤ stop ∧ stop ≤ line.length then .ok ((line.take stop).drop start) else outOfRange

/-- The number of tokens at the start of a line with no blank between them. -/
def touchingRun : List Token → Nat
  | [] => 0
  | [_] => 1
  | token :: next :: rest => if token.touches next then touchingRun (next :: rest) + 1 else 1

/-- Whether the token at an index of a line continues an expression and does not start a value. A
sign that touches its operand starts a value. -/
def continuesExpression (tokens : List Token) (index : Nat) : Read Bool := do
  let token ← tokenAt tokens index
  return match token.kind with
    | .plus | .minus =>
      match tokens[index + 1]? with
      | none => true
      | some next => !token.touches next
    | .star | .starStar | .slash | .percent | .equal | .notEqual | .less | .greater | .lessEqual
    | .greaterEqual | .andAnd | .orOr | .dotDot | .dotDotDot => true
    | .ident word => ["and", "or", "is", "isnt"].contains word
    | _ => false

/-- Whether a line that starts with this kind is an expression where it has no colon. -/
def startsExpression : Kind → Bool
  | .number _ _ | .string _ _ | .leftParen | .bang | .minus | .plus => true
  | _ => false

/-- The number of tokens before the parenthesis that closes the first one. `depth` counts the
parentheses that are open. -/
def closingParen? (depth : Nat) : List Token → Option Nat
  | [] => none
  | token :: rest =>
    match token.kind with
    | .leftParen => (closingParen? (depth + 1) rest).map (· + 1)
    | .rightParen =>
      if depth ≤ 1 then some 0 else (closingParen? (depth - 1) rest).map (· + 1)
    | _ => (closingParen? depth rest).map (· + 1)

/-- The pieces between the commas outside parentheses. -/
def commaPieces (depth : Nat) : List Token → List (List Token)
  | [] => [[]]
  | token :: rest =>
    match token.kind with
    | .comma =>
      if depth = 0 then [] :: commaPieces 0 rest else consPiece token (commaPieces depth rest)
    | .leftParen => consPiece token (commaPieces (depth + 1) rest)
    | .rightParen => consPiece token (commaPieces (depth - 1) rest)
    | _ => consPiece token (commaPieces depth rest)

/-! ## Reading past lines and blocks -/

theorem length_afterLine (tokens : List Token) : (afterLine tokens).length ≤ tokens.length :=
  (List.dropWhile_suffix _).length_le

theorem length_skipNewlines (tokens : List Token) : (skipNewlines tokens).length ≤ tokens.length :=
  (List.dropWhile_suffix _).length_le

theorem length_afterLevels (tokens : List Token) :
    ∀ depth, (afterLevels depth tokens).length ≤ tokens.length := by
  induction tokens with
  | nil => intro depth; simp [afterLevels]
  | cons token rest ih =>
    intro depth
    unfold afterLevels
    split
    · simp
    · have := ih (depth + 1); simp; omega
    · split
      · simp
      · have := ih (depth - 1); simp; omega
    · have := ih depth; simp; omega

theorem length_afterBlock (tokens : List Token) : (afterBlock tokens).length ≤ tokens.length := by
  unfold afterBlock
  split
  · have := length_afterLevels ((skipNewlines tokens).drop 1) 1
    have := length_skipNewlines tokens
    simp at *
    omega
  · simp

namespace Taken

variable {n : Nat} {α : Type} {tokens : List Token}

/-- A value read from the line that starts here. -/
def pastLine (value : α) : Taken 0 α tokens := ⟨value, afterLine tokens, length_afterLine tokens⟩

/-- A value read from the block that follows, if one does. -/
def pastBlock (value : α) : Taken 0 α tokens :=
  ⟨value, afterBlock tokens, length_afterBlock tokens⟩

/-- A reading that starts behind the line breaks. -/
def ofSkipped {next : List Token} (h : skipNewlines tokens = next) (taken : Taken n α next) :
    Taken n α tokens :=
  ⟨taken.value, taken.rest, Nat.le_trans taken.length_le (h ▸ length_skipNewlines tokens)⟩

/-- A reading that starts behind the line breaks. -/
def behindNewlines (taken : Taken n α (skipNewlines tokens)) : Taken n α tokens :=
  taken.ofSkipped rfl

end Taken

theorem length_of_skipNewlines {tokens rest : List Token} {token : Token}
    (h : skipNewlines tokens = token :: rest) : rest.length < tokens.length := by
  have := length_skipNewlines tokens
  rw [h] at this
  exact this

end StylusToScss
