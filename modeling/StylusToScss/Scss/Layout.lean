/-!
# Layout

What a conversion writes is a list of marks: texts, and between them the places where statements,
selectors and blocks begin and end. Turning marks into text keeps the line of the source that the
output has come to: a statement starts on its line, with blank lines where the source has them, and
the statements of a block are indented by two blanks a level.

* `Mark.text` and `Mark.after`: what a mark adds to the text, and the layout behind it.
* `layOut` gives the text of a list of marks.
-/

namespace StylusToScss

/-- A piece of output, or a place where the layout decides what is written. -/
inductive Mark where
  | text (s : String)
  /-- A statement of this line starts. -/
  | statement (line : Nat)
  /-- Another selector of this line follows. -/
  | selector (line : Nat)
  /-- An `else` clause of this line follows. -/
  | clause (line : Nat)
  /-- The statement goes on in a line of its own. -/
  | sameStatement
  | opening
  | closing
  deriving DecidableEq, Repr

/-- The line of the source accounted for, the blocks that are open, and whether a statement has been
written. -/
structure Layout where
  line : Nat
  depth : Nat
  started : Bool
  deriving DecidableEq, Repr

namespace Layout

/-- The start of the output. -/
def start : Layout := ⟨1, 0, false⟩

/-- Line feeds. -/
def lineFeeds (n : Nat) : String := String.ofList (List.replicate n '\n')

/-- The indentation at this depth. -/
def indentation (depth : Nat) : String := String.ofList (List.replicate (2 * depth) ' ')

/-- The line feeds before a statement of this line. Every statement but the first starts a line. -/
def leadFeeds (layout : Layout) (line : Nat) : Nat :=
  max (line - layout.line) (if layout.started then 1 else 0)

end Layout

namespace Mark

/-- What a mark adds to the text. -/
def written (layout : Layout) : Mark → String
  | .text s => s
  | .statement line =>
    Layout.lineFeeds (layout.leadFeeds line) ++ Layout.indentation layout.depth
  | .selector line =>
    if line ≤ layout.line then ", "
    else "," ++ Layout.lineFeeds (line - layout.line) ++ Layout.indentation layout.depth
  | .clause _ => ""
  | .sameStatement => "\n" ++ Layout.indentation layout.depth
  | .opening => " \x7b"
  | .closing => "\n" ++ Layout.indentation (layout.depth - 1) ++ "\x7d"

/-- The layout behind a mark. -/
def after (layout : Layout) : Mark → Layout
  | .text _ => layout
  | .statement line => { layout with line := max layout.line line, started := true }
  | .selector line => { layout with line := max layout.line line }
  | .clause line => { layout with line := max layout.line line }
  | .sameStatement => layout
  | .opening => { layout with depth := layout.depth + 1 }
  | .closing => { layout with depth := layout.depth - 1 }

end Mark

/-- The pieces of text that the marks write from a layout on. -/
def layPieces (layout : Layout) : List Mark → List String
  | [] => []
  | mark :: rest => mark.written layout :: layPieces (mark.after layout) rest

/-- The text of a list of marks. -/
def layOut (marks : List Mark) : String := String.join (layPieces .start marks)

theorem layPieces_append (layout : Layout) (a b : List Mark) :
    layPieces layout (a ++ b) = layPieces layout a ++ layPieces (a.foldl Mark.after layout) b := by
  induction a generalizing layout with
  | nil => rfl
  | cons mark rest ih => simp [layPieces, ih]

end StylusToScss
