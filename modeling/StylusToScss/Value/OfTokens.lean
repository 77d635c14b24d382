import StylusToScss.Fault
import StylusToScss.Tree.Basic
import StylusToScss.Value.Operator

/-!
# Reading a value

A value is a sequence of operands, or several sequences separated by commas. An operand is built
from primaries by prefix and binary operators; operators bind tighter than the blanks between
operands. The readers follow that grammar, each from the front of a list of tokens.

* `Expression.ofTokens` reads a whole value, which has to use up its tokens.
-/

namespace StylusToScss

/-- The line that the nodes of a value get, and where a failure is reported after the last token. -/
structure ValueSite where
  line : Nat
  endLine : Nat
  endColumn : Nat

/-- The site of a value with these tokens: its end is the last token. -/
def ValueSite.ofTokens (tokens : List Token) (line : Nat) : ValueSite :=
  match tokens.getLast? with
  | some last => ⟨line, last.span.line, last.span.column⟩
  | none => ⟨line, line, 1⟩

/-- A failure at the first of the tokens, or at the end of the value. -/
def ValueSite.fault (site : ValueSite) (tokens : List Token) (cause : ParseFault) :
    Located ParseFault :=
  match tokens with
  | token :: _ => token.fault cause
  | [] => ⟨cause, site.endLine, site.endColumn⟩

/-- Whether a token ends a sequence of operands. -/
def Kind.endsSequence : Kind → Bool
  | .comma | .rightParen => true
  | _ => false

/-- The word operators and signs before an operand. -/
def Kind.unarySpelling? : Kind → Option String
  | .bang => some "!"
  | .ident "not" => some "not"
  | .minus => some "-"
  | .plus => some "+"
  | _ => none

/-- The two tokens of `!important`, written without a blank. -/
def important? : (tokens : List Token) → Option (Taken 1 Unit tokens)
  | bang :: word :: _ =>
    if bang.kind == .bang && bang.touches word && word.kind.isWord "important" then
      some (Taken.first ()).behind
    else none
  | _ => none

theorem important?_cons_cons (bang word : Token) (rest : List Token) :
    important? (bang :: word :: rest) =
      if bang.kind == .bang && bang.touches word && word.kind.isWord "important" then
        some (Taken.first ()).behind
      else none := rfl

/-- Whether a word after `#` writes a color: three, four, six or eight hexadecimal digits. -/
def isHexColor (word : String) : Bool :=
  [3, 4, 6, 8].contains word.utf8ByteSize &&
    word.toList.all fun c =>
      c.isDigit || ('a' ≤ c && c ≤ 'f') || ('A' ≤ c && c ≤ 'F')

/-- A unit, or nothing where no unit is written. -/
def unitOf (unit : String) : Option String := if unit = "" then none else some unit

/-- The node of a sequence as an argument: its operand if there is one only. -/
def Expression.asArgument (expression : Expression) : Node :=
  match expression.nodes with
  | [node] => if expression.parenthesized then .expression expression else node
  | _ => .expression expression

/-- Sequences as one expression: the sequence itself if there is one only, else a list. -/
def Expression.ofSequences (first : Expression) (more : List Expression) (line : Nat) :
    Expression :=
  if more.isEmpty then first
  else ⟨(first :: more).map .expression, true, false, line⟩

/-- An expression in parentheses. -/
def Expression.inParentheses (expression : Expression) : Expression :=
  { expression with parenthesized := true }

/-- A result of reading. -/
abbrev ReadResult (n : Nat) (α : Type) (tokens : List Token) :=
  Except (Located ParseFault) (Taken n α tokens)

/-- A closing parenthesis. -/
def readClosing (site : ValueSite) (tokens : List Token) : ReadResult 1 Unit tokens :=
  match tokens with
  | ⟨.rightParen, _⟩ :: _ => .ok (.first ())
  | other => .error (site.fault other .rightParenExpected)

/-- What stands behind an argument: a comma, or else the closing parenthesis. -/
def readSeparator (site : ValueSite) (tokens : List Token) : ReadResult 1 Bool tokens :=
  match tokens with
  | ⟨.comma, _⟩ :: _ => .ok (.first true)
  | ⟨.rightParen, _⟩ :: _ => .ok (.first false)
  | other => .error (site.fault other .rightParenExpected)

mutual

/-- Sequences separated by commas. -/
def readList (site : ValueSite) (tokens : List Token) : ReadResult 1 Expression tokens := do
  let first ← readSequence site tokens
  let more ← readFurther site first.rest
  return first.andThen more fun e es => .ofSequences e es site.line
termination_by 16 * tokens.length + 7
decreasing_by
  · omega
  · have := first.rest_lt
    omega

/-- The sequences after the first one, each after a comma. -/
def readFurther (site : ValueSite) (tokens : List Token) : ReadResult 0 (List Expression) tokens :=
  match tokens with
  | ⟨.comma, _⟩ :: rest => do
    let sequence ← readSequence site rest
    let more ← readFurther site sequence.rest
    return (sequence.andThen more List.cons).behind.loose
  | _ => .ok (.nothing [])
termination_by 16 * tokens.length + 0
decreasing_by
  · simp only [List.length_cons]
    omega
  · have := sequence.rest_lt
    simp only [List.length_cons]
    omega

/-- One operand or more, up to a comma, a closing parenthesis or the end. -/
def readSequence (site : ValueSite) (tokens : List Token) : ReadResult 1 Expression tokens :=
  match tokens with
  | [] => .error (site.fault [] .valueExpected)
  | token :: rest =>
    if token.kind.endsSequence then .error (token.fault .valueExpected)
    else do
      let first ← readBinary site 0 (token :: rest)
      let more ← readOperands site first.rest
      return first.andThen more fun node nodes => .sequence (node :: nodes) site.line
termination_by 16 * tokens.length + 6
decreasing_by
  · omega
  · have := first.rest_lt
    omega

/-- The operands after the first one of a sequence. -/
def readOperands (site : ValueSite) (tokens : List Token) : ReadResult 0 (List Node) tokens :=
  match tokens with
  | [] => .ok (.nothing [])
  | token :: rest =>
    if token.kind.endsSequence then .ok (.nothing [])
    else do
      let first ← readBinary site 0 (token :: rest)
      let more ← readOperands site first.rest
      return (first.andThen more List.cons).loose
termination_by 16 * tokens.length + 6
decreasing_by
  · omega
  · have := first.rest_lt
    omega

/-- An operand with binary operators of at least this precedence. -/
def readBinary (site : ValueSite) (least : Nat) (tokens : List Token) :
    ReadResult 1 Node tokens := do
  let first ← readUnary site tokens
  let whole ← readOperators site least first.value first.rest
  return first.after whole
termination_by 16 * tokens.length + 5
decreasing_by
  · omega
  · have := first.rest_lt
    omega

/-- The operators of at least this precedence that follow a left operand, with their right operands.
-/
def readOperators (site : ValueSite) (least : Nat) (left : Node) (tokens : List Token) :
    ReadResult 0 Node tokens :=
  match operator? tokens with
  | none => .ok (.nothing left)
  | some op =>
    if op.value.precedence < least then .ok (.nothing left)
    else do
      let right ← readBinary site op.value.rightPrecedence op.rest
      let whole ← readOperators site least
        (.binary op.value.spelling left right.value site.line) right.rest
      return ((op.after right).after whole).loose
termination_by 16 * tokens.length + 0
decreasing_by
  · have := op.rest_lt
    omega
  · have := op.rest_lt
    have := right.rest_lt
    omega

/-- A primary with the operators before it. -/
def readUnary (site : ValueSite) (tokens : List Token) : ReadResult 1 Node tokens :=
  match tokens with
  | [] => .error (site.fault [] .valueExpected)
  | token :: rest =>
    match important? (token :: rest) with
    | some word => .ok (word.map fun _ => .plain "!important" site.line)
    | none =>
      match token.kind.unarySpelling? with
      | some spelling => do
        let operand ← readUnary site rest
        return (operand.map fun node => .unary spelling node site.line).behind
      | none => do
        let primary ← readPrimary site token rest
        return primary.behind
termination_by 16 * tokens.length + 4
decreasing_by
  all_goals
    simp only [List.length_cons]
    omega

/-- The primary that starts with `token`. -/
def readPrimary (site : ValueSite) (token : Token) (rest : List Token) : ReadResult 0 Node rest :=
  match token.kind with
  | .number value unit => .ok (.nothing (.measure value (unitOf unit) site.line))
  | .string value quote => .ok (.nothing (.literal ⟨value, some quote, site.line⟩))
  | .hash word =>
    if isHexColor word then .ok (.nothing (.color ("#" ++ word) site.line))
    else .ok (.nothing (.plain ("#" ++ word) site.line))
  | .url raw => .ok (.nothing (.plain raw site.line))
  | .atWord name => .ok (.nothing (.ident name false true site.line))
  | .ident name => readName site token name rest
  | .leftParen => do
    let inner ← readList site rest
    let closing ← readClosing site inner.rest
    return (inner.andThen closing fun e _ => .expression e.inParentheses).loose
  | kind => .error (token.fault (.unexpectedToken kind))
termination_by 16 * rest.length + (16 + 3)
decreasing_by
  all_goals omega

/-- A name: a truth value, a call if a parenthesis touches it, a name with a value, or a name. -/
def readName (site : ValueSite) (token : Token) (name : String) (rest : List Token) :
    ReadResult 0 Node rest :=
  if name = "true" then .ok (.nothing (.boolean true site.line))
  else if name = "false" then .ok (.nothing (.boolean false site.line))
  else match rest with
    | [] => .ok (.nothing (.name name site.line))
    | next :: after =>
      match next.kind with
      | .leftParen =>
        if token.touches next then do
          let arguments ← readArguments site after
          return (arguments.map fun nodes => .call name ⟨nodes, site.line⟩ site.line).behind.loose
        else .ok (.nothing (.name name site.line))
      | .assign | .conditionalAssign => do
        let value ← readSequence site after
        return (value.map fun e => .bound name (.expression e) site.line).behind.loose
      | _ => .ok (.nothing (.name name site.line))
termination_by 16 * rest.length + (16 + 2)
decreasing_by
  all_goals
    simp only [List.length_cons]
    omega

/-- The arguments after an opening parenthesis, and the closing one. -/
def readArguments (site : ValueSite) (tokens : List Token) : ReadResult 1 (List Node) tokens :=
  match tokens with
  | ⟨.rightParen, _⟩ :: _ => .ok (.first [])
  | tokens => readArgumentList site tokens
termination_by 16 * tokens.length + 10

/-- One argument or more, separated by commas, and the closing parenthesis. -/
def readArgumentList (site : ValueSite) (tokens : List Token) :
    ReadResult 1 (List Node) tokens := do
  let first ← readArgument site tokens
  let separator ← readSeparator site first.rest
  if separator.value then
    let more ← readArgumentList site separator.rest
    return first.andThen (separator.after more) List.cons
  else return first.andThen separator fun node _ => [node]
termination_by 16 * tokens.length + 9
decreasing_by
  · omega
  · have := first.rest_lt
    have := separator.rest_lt
    omega

/-- One argument: a name, a colon and a sequence, or a sequence. -/
def readArgument (site : ValueSite) (tokens : List Token) : ReadResult 1 Node tokens :=
  match tokens with
  | ⟨.ident name, _⟩ :: ⟨.colon, _⟩ :: rest => do
    let value ← readSequence site rest
    return (value.map fun e => .bound name (.expression e) site.line).behind.behind
  | tokens => do
    let value ← readSequence site tokens
    return value.map Expression.asArgument
termination_by 16 * tokens.length + 8
decreasing_by
  · simp only [List.length_cons]
    omega
  · omega

end

/-- The value that the tokens write. Its nodes get the line. -/
def Expression.ofTokens (tokens : List Token) (line : Nat) :
    Except (Located ParseFault) Expression := do
  let whole ← readList (.ofTokens tokens line) tokens
  match whole.rest with
  | [] => return whole.value
  | token :: _ => .error (token.fault (.unexpectedToken token.kind))

end StylusToScss
