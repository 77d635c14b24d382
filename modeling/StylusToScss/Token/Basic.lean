import StylusToScss.Binary64.Basic
import StylusToScss.Position
import StylusToScss.Text.Quoted

/-!
# Tokens

A token is a kind and the span it covers. Keywords such as `if` and `in` are identifiers: what they
mean depends on where they stand.

* `fixedKinds` lists the kinds with one spelling, a longer spelling before each one it starts with.
* `Token.touches`: no blank separates two tokens.
-/

namespace StylusToScss

/-- The kinds of token, with the data that a token carries. -/
inductive Kind where
  | indent
  | dedent
  | newline
  | ident (name : String)
  | number (value : Binary64) (unit : String)
  | string (value : String) (quote : Char)
  | hash (word : String)
  | atWord (word : String)
  | url (raw : String)
  | colon
  | semicolon
  | comma
  | leftParen
  | rightParen
  | leftBrace
  | rightBrace
  | leftBracket
  | rightBracket
  | dot
  | dotDot
  | dotDotDot
  | plus
  | minus
  | star
  | starStar
  | slash
  | percent
  | assign
  | conditionalAssign
  | equal
  | notEqual
  | less
  | greater
  | lessEqual
  | greaterEqual
  | bang
  | andAnd
  | orOr
  | ampersand
  | symbol (c : Char)
  | endOfInput
  deriving DecidableEq, Repr

namespace Kind

/-- The kinds with one spelling. A spelling that starts another one stands after it. -/
def fixedKinds : List (List Char × Kind) := [
  (['.', '.', '.'], .dotDotDot), (['.', '.'], .dotDot), (['.'], .dot),
  ([':'], .colon), ([';'], .semicolon), ([','], .comma),
  (['('], .leftParen), ([')'], .rightParen), (['\x7b'], .leftBrace), (['\x7d'], .rightBrace),
  (['['], .leftBracket), ([']'], .rightBracket),
  (['+'], .plus), (['-'], .minus), (['/'], .slash), (['%'], .percent),
  (['*', '*'], .starStar), (['*'], .star), (['=', '='], .equal), (['='], .assign),
  (['!', '='], .notEqual), (['!'], .bang), (['?', '='], .conditionalAssign),
  (['<', '='], .lessEqual), (['<'], .less), (['>', '='], .greaterEqual), (['>'], .greater),
  (['&', '&'], .andAnd), (['&'], .ampersand), (['|', '|'], .orOr)]

/-- The name of the kind. -/
def name : Kind → String
  | indent => "Indent"
  | dedent => "Dedent"
  | newline => "Newline"
  | ident _ => "Ident"
  | number _ _ => "Number"
  | string _ _ => "String"
  | hash _ => "Hash"
  | atWord _ => "AtWord"
  | url _ => "Url"
  | colon => "Colon"
  | semicolon => "Semicolon"
  | comma => "Comma"
  | leftParen => "LParen"
  | rightParen => "RParen"
  | leftBrace => "LBrace"
  | rightBrace => "RBrace"
  | leftBracket => "LBracket"
  | rightBracket => "RBracket"
  | dot => "Dot"
  | dotDot => "DotDot"
  | dotDotDot => "DotDotDot"
  | plus => "Plus"
  | minus => "Minus"
  | star => "Star"
  | starStar => "StarStar"
  | slash => "Slash"
  | percent => "Percent"
  | assign => "Assign"
  | conditionalAssign => "ConditionalAssign"
  | equal => "EqEq"
  | notEqual => "NotEq"
  | less => "Lt"
  | greater => "Gt"
  | lessEqual => "Lte"
  | greaterEqual => "Gte"
  | bang => "Bang"
  | andAnd => "AndAnd"
  | orOr => "OrOr"
  | ampersand => "Amp"
  | symbol _ => "Symbol"
  | endOfInput => "Eof"

/-- The kind as a message shows it: its name, and the character of a symbol. -/
def shown : Kind → String
  | symbol c => "Symbol(" ++ Text.quoted c ++ ")"
  | kind => kind.name

/-- Whether a token of this kind ends a logical line. -/
def endsLine : Kind → Bool
  | newline | indent | dedent | endOfInput => true
  | _ => false

/-- Whether the kind is an identifier with this name. -/
def isWord (kind : Kind) (word : String) : Bool :=
  match kind with
  | ident name => name == word
  | _ => false

theorem isWord_iff {kind : Kind} {word : String} :
    kind.isWord word = true ↔ kind = .ident word := by
  cases kind <;> simp [isWord]

end Kind

/-- A token: its kind and the span it covers. -/
structure Token where
  kind : Kind
  span : Span
  deriving DecidableEq, Repr

namespace Token

/-- Whether `next` starts where this token ends. -/
def touches (token next : Token) : Bool := token.span.stop == next.span.start

/-- A cause of failure, reported at this token. -/
def fault {ε : Type} (token : Token) (cause : ε) : Located ε :=
  ⟨cause, token.span.line, token.span.column⟩

end Token
end StylusToScss
