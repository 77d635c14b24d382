import StylusToScss.Binary64.Decimal
import StylusToScss.Fault
import StylusToScss.Text.Alphabetic
import StylusToScss.Text.Blank

/-!
# Lexemes

A lexeme is what stands under a token: its kind and the characters that spell it. `lexeme` reads the
one at the front of a text from the first character, the characters after it, and the character
before it, which only the sign of a number depends on.

* `Lexeme.spelling_ne_nil`: a lexeme takes at least one character, so cutting a text into lexemes
  ends.
-/

namespace StylusToScss

open Text

/-- A kind with the characters that spell it. -/
structure Lexeme where
  kind : Kind
  spelling : List Char
  spelling_ne_nil : spelling ≠ []

/-- A failure inside a lexeme: its cause, and how many characters after the start it is reported. -/
structure Misread where
  cause : LexFault
  after : Nat

namespace Lexeme

/-! ## Names -/

/-- Whether a hyphen followed by this text belongs to a name that has already begun. -/
def continuesName : List Char → Bool
  | [] => false
  | c :: _ => isAlphanumeric c || c == '_' || c == '$' || c == '-'

/-- The characters at the front of the text that continue a name. A hyphen does if a character of a
name follows it. -/
def nameTail : List Char → List Char
  | [] => []
  | c :: rest =>
    if isAlphanumeric c || c == '_' || c == '$' || (c == '-' && continuesName rest) then
      c :: nameTail rest
    else []

/-- Whether a hyphen followed by this text starts a name. -/
def startsNameAfterHyphen : List Char → Bool
  | [] => false
  | c :: _ => isAlphabetic c || c == '_' || c == '-'

/-- The address of `url(`: everything up to a closing parenthesis on the same line, which is the
second component if it is there. -/
def address (text : List Char) : List Char × Bool :=
  let inner := text.takeWhile fun c => c != ')' && c != '\n' && c != '\r'
  (inner, (text.drop inner.length).head? == some ')')

/-- The name that starts with `c`, or the raw text of a `url(…)`. -/
def name (c : Char) (rest : List Char) : Except Misread Lexeme :=
  let word := c :: nameTail rest
  let after := rest.drop (nameTail rest).length
  if word = ['u', 'r', 'l'] ∧ after.head? = some '(' then
    match address after with
    | (inner, true) =>
      let raw := word ++ inner ++ [')']
      .ok ⟨.url (String.ofList raw), raw, by simp [raw, word]⟩
    | (_, false) => .error ⟨.unterminatedUrl, 0⟩
  else .ok ⟨.ident (String.ofList word), word, by simp [word]⟩

/-! ## Words after `#` and `@` -/

/-- The characters of a word after `#` or `@`. -/
def markedWord (text : List Char) : List Char :=
  text.takeWhile fun c => isAlphanumeric c || c == '-' || c == '_'

/-! ## Strings -/

/-- The value of a string: the characters before the closing quote. A backslash keeps the character
after it, whatever that is. -/
def stringValue (quote : Char) : List Char → Except LexFault (List Char)
  | [] => .error .unterminatedString
  | c :: rest =>
    if c = quote then .ok []
    else if c = '\\' then
      match rest with
      | [] => .error .unterminatedEscape
      | d :: rest => (stringValue quote rest).map fun value => c :: d :: value
    else if c = '\n' ∨ c = '\r' then .error .unterminatedString
    else (stringValue quote rest).map (c :: ·)

/-- The string after its opening quote. An unfinished escape is reported where the text ends, any
other unfinished string where it starts. -/
def string (quote : Char) (rest : List Char) : Except Misread Lexeme :=
  match stringValue quote rest with
  | .ok value =>
    .ok ⟨.string (String.ofList value) quote, quote :: value ++ [quote], by simp⟩
  | .error .unterminatedEscape => .error ⟨.unterminatedEscape, rest.length + 1⟩
  | .error cause => .error ⟨cause, 0⟩

/-! ## Numbers -/

/-- Whether the text starts with a digit, or with a point and a digit. -/
def startsNumber : List Char → Bool
  | '.' :: c :: _ => c.isDigit
  | c :: _ => c.isDigit
  | [] => false

/-- Whether a hyphen after this character is the sign of a number: at the start of the text, after a
blank, and after an opening parenthesis, a comma or a colon. -/
def signAllowed : Option Char → Bool
  | none => true
  | some c => isBlank c || c == '(' || c == ',' || c == ':'

/-- The point and the digits after it, if a digit follows the point. -/
def fraction : List Char → List Char
  | '.' :: c :: rest => if c.isDigit then '.' :: c :: rest.takeWhile Char.isDigit else []
  | _ => []

/-- The unit: a percent sign, or ASCII letters. -/
def unit : List Char → List Char
  | '%' :: _ => ['%']
  | text => text.takeWhile Char.isAlpha

/-- The sign, the digits and the fraction of the number at the front of the text. -/
def numeral (text : List Char) : List Char :=
  let sign := text.takeWhile (· == '-') |>.take 1
  let whole := (text.drop sign.length).takeWhile Char.isDigit
  sign ++ whole ++ fraction (text.drop (sign.length + whole.length))

/-- The number at the front of the text. -/
def number (text : List Char) : Except Misread Lexeme :=
  match h : Binary64.read? (numeral text) with
  | none => .error ⟨.invalidNumber (String.ofList (numeral text)), 0⟩
  | some value =>
    let letters := unit (text.drop (numeral text).length)
    .ok ⟨.number value (String.ofList letters), numeral text ++ letters, by
      intro e
      rw [(List.append_eq_nil_iff.1 e).1, Binary64.read?_nil] at h
      cases h⟩

/-! ## Kinds with one spelling -/

/-- The first kind of the list whose spelling starts the text. -/
def fixed? (text : List Char) : Option (List Char × Kind) :=
  Kind.fixedKinds.find? fun entry => entry.1.isPrefixOf text

theorem fixed?_ne_nil {text spelling : List Char} {kind : Kind}
    (h : fixed? text = some (spelling, kind)) : spelling ≠ [] := by
  have all : ∀ entry ∈ Kind.fixedKinds, entry.1 ≠ [] := by decide
  exact all _ (List.mem_of_find?_eq_some h)

end Lexeme

/-! ## Every lexeme -/

open Lexeme in
/-- The lexeme that starts with `c`, where `previous` is the character before it. -/
def lexeme (previous : Option Char) (c : Char) (rest : List Char) : Except Misread Lexeme :=
  if c = '"' ∨ c = '\'' then string c rest
  else if startsNumber (c :: rest) ∨
      (c = '-' ∧ startsNumber rest ∧ signAllowed previous) then number (c :: rest)
  else if isAlphabetic c ∨ c = '_' ∨ c = '$' ∨ (c = '-' ∧ startsNameAfterHyphen rest) then
    name c rest
  else if (c = '#' ∨ c = '@') ∧ markedWord rest ≠ [] then
    let word := String.ofList (markedWord rest)
    .ok ⟨if c = '#' then .hash word else .atWord word, c :: markedWord rest, by simp⟩
  else match h : fixed? (c :: rest) with
    | some (spelling, kind) => .ok ⟨kind, spelling, fixed?_ne_nil h⟩
    | none =>
      if isControl c then .error ⟨.unexpectedCharacter c, 0⟩
      else .ok ⟨.symbol c, [c], by simp⟩

end StylusToScss
