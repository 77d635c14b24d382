import StylusToScss.Fault
import StylusToScss.Pieces
import StylusToScss.Text.Blank
import StylusToScss.Tree.Basic

/-!
# Selector lists and interpolated text

The text of a selector or of a property name is kept as it is written, apart from two things. A list
of selectors is cut at the commas outside quotes, parentheses and brackets, and a name between
braces is interpolated.

* `splitSelectors` cuts a selector list, `splitSegments` finds the interpolated names.
-/

namespace StylusToScss

open Text

/-! ## Selector lists -/

/-- How deep in parentheses and brackets a text is, and the quote it is inside of. -/
structure SelectorState where
  depth : Nat
  quote : Option Char
  deriving DecidableEq, Repr

/-- Outside every quote, parenthesis and bracket. -/
def SelectorState.outside : SelectorState := ⟨0, none⟩

/-- The state behind a character. -/
def SelectorState.after (state : SelectorState) (c : Char) : SelectorState :=
  match state.quote with
  | some q => if c = q then { state with quote := none } else state
  | none =>
    if c = '"' ∨ c = '\'' then { state with quote := some c }
    else if c = '(' ∨ c = '[' then { state with depth := state.depth + 1 }
    else if c = ')' ∨ c = ']' then { state with depth := state.depth - 1 }
    else state

/-- The pieces between the commas that lie outside quotes, parentheses and brackets. -/
def selectorPieces (state : SelectorState) : List Char → List (List Char)
  | [] => [[]]
  | c :: rest =>
    if c = ',' ∧ state = .outside then [] :: selectorPieces state rest
    else consPiece c (selectorPieces (state.after c) rest)

/-- The selectors of a list: its pieces, trimmed, without the blank ones. -/
def splitSelectors (text : List Char) : List (List Char) :=
  ((selectorPieces .outside text).map trim).filter (· ≠ [])

/-! ## Interpolated names -/

/-- A segment of literal text, if there is any. -/
def literalSegment (text : List Char) (line : Nat) : List Node :=
  if text = [] then [] else [.plain (String.ofList text) line]

/-- The segments of a text: what stands between braces is a name, the rest is literal. A failure
shows the whole text. -/
def segmentsFrom (whole : List Char) (line : Nat) (text : List Char) :
    Except ParseFault (List Node) :=
  match _h : text.dropWhile (· != '\x7b') with
  | [] => .ok (literalSegment text line)
  | _ :: inside =>
    match _hi : inside.dropWhile (· != '\x7d') with
    | [] => .error (.unterminatedInterpolation (String.ofList whole))
    | _ :: rest =>
      let name := trim (inside.takeWhile (· != '\x7d'))
      if name = [] then .error (.emptyInterpolation (String.ofList whole))
      else do
        let more ← segmentsFrom whole line rest
        return literalSegment (text.takeWhile (· != '\x7b')) line ++
          .ident (String.ofList name) true false line :: more
termination_by text.length
decreasing_by
  have := (List.dropWhile_suffix (p := (· != '\x7b')) (l := text)).length_le
  have := (List.dropWhile_suffix (p := (· != '\x7d')) (l := inside)).length_le
  simp_all
  omega

/-- The segments of a text that starts at a line and column. -/
def splitSegments (text : List Char) (line column : Nat) :
    Except (Located ParseFault) (List Node) :=
  match segmentsFrom text line text with
  | .ok segments => .ok segments
  | .error cause => .error ⟨cause, line, column⟩

end StylusToScss
