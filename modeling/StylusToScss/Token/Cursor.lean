import StylusToScss.Position
import StylusToScss.Token.Basic

/-!
# A place in the source, and moving on from it

A `Cursor` holds the text still to be read, the character before it, and the place where it starts.
`along` moves over characters of one line, `across` over the characters of a comment, whose line
feeds count as lines, and `nextLine` over a line break.

* `rest_along`, `rest_across`: moving over `n` characters drops them from the text.
-/

namespace StylusToScss

/-- A place in the source with the text from there on. -/
structure Cursor where
  previous : Option Char
  rest : List Char
  offset : Nat
  line : Nat
  column : Nat

namespace Cursor

/-- The start of a source. -/
def start (source : List Char) : Cursor := ⟨none, source, 0, 1, 1⟩

/-- Move over `n` characters, a column each. -/
def along (cursor : Cursor) (n : Nat) : Cursor :=
  let passed := cursor.rest.take n
  { previous := passed.getLast?.or cursor.previous
    rest := cursor.rest.drop n
    offset := cursor.offset + byteLength passed
    line := cursor.line
    column := cursor.column + passed.length }

/-- The line and column behind a character of a comment. -/
def afterChar (place : Nat × Nat) (c : Char) : Nat × Nat :=
  if c = '\n' then (place.1 + 1, 1) else (place.1, place.2 + 1)

/-- Move over `n` characters, starting a line after each line feed. -/
def across (cursor : Cursor) (n : Nat) : Cursor :=
  let place := (cursor.rest.take n).foldl afterChar (cursor.line, cursor.column)
  { cursor.along n with line := place.1, column := place.2 }

/-- Move to the start of the next line over a line break of `n` characters. -/
def nextLine (cursor : Cursor) (n : Nat) : Cursor :=
  { cursor.along n with line := cursor.line + 1, column := 1 }

/-- The span from here over `n` characters. -/
def span (cursor : Cursor) (n : Nat) : Span :=
  ⟨cursor.offset, (cursor.along n).offset, cursor.line, cursor.column⟩

/-- A token over the next `n` characters. -/
def token (cursor : Cursor) (kind : Kind) (n : Nat) : Token := ⟨kind, cursor.span n⟩

/-- The token of a line break of `n` characters: its last character, at the column behind it. -/
def breakToken (cursor : Cursor) (n : Nat) : Token :=
  let stop := cursor.along n
  ⟨.newline, stop.offset - 1, stop.offset, stop.line, stop.column⟩

/-- A cause of failure, reported here. -/
def fault {ε : Type} (cursor : Cursor) (cause : ε) : Located ε :=
  ⟨cause, cursor.line, cursor.column⟩

@[simp] theorem rest_along (cursor : Cursor) (n : Nat) :
    (cursor.along n).rest = cursor.rest.drop n := rfl

@[simp] theorem rest_across (cursor : Cursor) (n : Nat) :
    (cursor.across n).rest = cursor.rest.drop n := rfl

@[simp] theorem rest_nextLine (cursor : Cursor) (n : Nat) :
    (cursor.nextLine n).rest = cursor.rest.drop n := rfl

end Cursor
end StylusToScss
