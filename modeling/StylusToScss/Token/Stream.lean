import StylusToScss.Token.Cursor
import StylusToScss.Token.Lexeme

/-!
# The tokens of a source

`tokenize` cuts a source text into tokens. Between the lexemes of a line stand blanks and comments;
a line break outside parentheses ends a logical line, and the indentation of the next one opens and
closes levels, which `Indent` and `Dedent` tokens record. Blank lines and lines that hold only a
comment leave the levels alone.

* `reindent`: the levels that a line's indentation leaves open, and the tokens that say so.
* `Scan.step` goes on by one blank, comment, line break or lexeme, or by the indentation of a line;
  `Scan.run` steps to the end of the source.
* `Scan.Step` says what a step can do; each one leaves less of the source (`Step.size_lt`).
-/

namespace StylusToScss

/-! ## What is skipped -/

/-- A blank inside a line. -/
def isSpace (c : Char) : Bool := c == ' ' || c == '\t'

/-- The number of blanks at the front of the text. -/
def spaces (text : List Char) : Nat := (text.takeWhile isSpace).length

/-- The number of characters of the line break at the front of the text: a line feed, a carriage
return, or the two together. -/
def lineBreak : List Char → Nat
  | '\r' :: '\n' :: _ => 2
  | '\r' :: _ => 1
  | '\n' :: _ => 1
  | _ => 0

/-- The number of characters up to the end of the line. -/
def lineComment (text : List Char) : Nat :=
  (text.takeWhile fun c => c != '\n' && c != '\r').length

/-- The number of characters up to the end of a block comment whose opening has been passed. -/
def commentEnd? : List Char → Option Nat
  | [] => none
  | '*' :: '/' :: _ => some 2
  | _ :: rest => (commentEnd? rest).map (· + 1)

/-- The place behind the block comment that starts here. -/
def Cursor.blockComment (cursor : Cursor) : Except (Located LexFault) Cursor :=
  match commentEnd? (cursor.rest.drop 2) with
  | some n => .ok (cursor.across (n + 2))
  | none => .error (cursor.fault .unterminatedComment)

/-! ## Indentation -/

/-- The levels open after a line indented by `width`, innermost first, and the tokens that lead
there. A wider line opens a level; a narrower one closes those wider than itself and has to meet
one. -/
def reindent (levels : List Nat) (width : Nat) : Option (List Kind × List Nat) :=
  if levels.headD 0 < width then some ([.indent], width :: levels)
  else
    let kept := levels.dropWhile (width < ·)
    if kept.headD 0 = width then
      some (List.replicate (levels.length - kept.length) .dedent, kept)
    else none

/-- The place of the first thing on a line that is neither a blank nor the comment that opens it. -/
def Cursor.indentation (cursor : Cursor) : Except (Located LexFault) Cursor :=
  let first := cursor.along (spaces cursor.rest)
  match first.rest with
  | '/' :: '/' :: _ => .ok (first.along (lineComment first.rest))
  | '/' :: '*' :: _ => first.blockComment.map fun next => next.along (spaces next.rest)
  | _ => .ok first

theorem length_rest_blockComment {cursor next : Cursor} (h : cursor.blockComment = .ok next) :
    next.rest.length < cursor.rest.length := by
  unfold Cursor.blockComment at h
  split at h
  · next n hn =>
    cases h
    have : 2 < cursor.rest.length := by
      cases hd : cursor.rest.drop 2 with
      | nil => rw [hd] at hn; cases hn
      | cons c rest =>
        have := congrArg List.length hd
        simp at this
        omega
    simp only [Cursor.rest_across, List.length_drop]
    omega
  · cases h

theorem length_rest_indentation {cursor next : Cursor} (h : cursor.indentation = .ok next) :
    next.rest.length ≤ cursor.rest.length := by
  unfold Cursor.indentation at h
  simp only at h
  split at h
  · cases h
    simp only [Cursor.rest_along, List.length_drop]
    omega
  · cases hb : (cursor.along (spaces cursor.rest)).blockComment with
    | error e => rw [hb] at h; cases h
    | ok c =>
      rw [hb] at h
      cases h
      have := length_rest_blockComment hb
      simp only [Cursor.rest_along, List.length_drop] at this ⊢
      omega
  · cases h
    simp

/-! ## The whole source -/

/-- How far the source has been cut: the place, the open levels, the open parentheses, and whether a
logical line starts here. -/
structure Scan where
  cursor : Cursor
  levels : List Nat
  parens : Nat
  lineStart : Bool

namespace Scan

/-- The start of a source. -/
def start (source : List Char) : Scan := ⟨.start source, [], 0, true⟩

/-- The tokens after the last character: each open level is closed, and the input ends. -/
def closing (scan : Scan) : List Token :=
  List.replicate scan.levels.length (scan.cursor.token .dedent 0) ++
    [scan.cursor.token .endOfInput 0]

/-- The open parentheses after a token. A closing one without a partner counts for nothing. -/
def parensAfter (parens : Nat) : Kind → Nat
  | .leftParen => parens + 1
  | .rightParen => parens - 1
  | _ => parens

/-- Start a logical line: skip to its first lexeme, and open or close levels if it has one. -/
def startLine (scan : Scan) (first : Cursor) : Except (Located LexFault) (List Token × Scan) :=
  if first.rest = [] ∨ lineBreak first.rest ≠ 0 then
    .ok ([], { scan with cursor := first, lineStart := false })
  else
    let width := spaces scan.cursor.rest
    match reindent scan.levels width with
    | some (kinds, levels) =>
      .ok (kinds.map fun kind => first.token kind 0,
        { scan with cursor := first, levels := levels, lineStart := false })
    | none => .error (first.fault (.misalignedIndentation width))

/-- Pass a line break of `n` characters. Inside parentheses it is a blank. -/
def breakLine (scan : Scan) (n : Nat) : List Token × Scan :=
  if scan.parens = 0 then
    ([scan.cursor.breakToken n],
      { scan with cursor := scan.cursor.nextLine n, lineStart := true })
  else ([], { scan with cursor := scan.cursor.nextLine n })

/-- Go on from the character `c`, behind which `rest` stands: the tokens cut, and how far the source
has been cut then. -/
def step (scan : Scan) (c : Char) (rest : List Char) :
    Except (Located LexFault) (List Token × Scan) :=
  if scan.lineStart then
    match scan.cursor.indentation with
    | .error e => .error e
    | .ok first => scan.startLine first
  else if isSpace c then .ok ([], { scan with cursor := scan.cursor.along 1 })
  else if lineBreak (c :: rest) ≠ 0 then .ok (scan.breakLine (lineBreak (c :: rest)))
  else if c = '/' ∧ rest.head? = some '/' then
    .ok ([], { scan with cursor := scan.cursor.along (lineComment (c :: rest)) })
  else if c = '/' ∧ rest.head? = some '*' then
    match scan.cursor.blockComment with
    | .error e => .error e
    | .ok next => .ok ([], { scan with cursor := next })
  else
    match lexeme scan.cursor.previous c rest with
    | .error e => .error ((scan.cursor.along e.after).fault e.cause)
    | .ok item =>
      .ok ([scan.cursor.token item.kind item.spelling.length],
        { scan with
          cursor := scan.cursor.along item.spelling.length
          parens := parensAfter scan.parens item.kind })

/-- What a step can do: open a line, or pass a blank, a line break, a comment or a lexeme. -/
inductive Step (scan : Scan) : List Token → Scan → Prop
  | line {first : Cursor} {tokens : List Token} {next : Scan}
      (starts : scan.lineStart = true) (indented : scan.cursor.indentation = .ok first)
      (opened : scan.startLine first = .ok (tokens, next)) : Step scan tokens next
  | space {c : Char} {rest : List Char} (here : scan.cursor.rest = c :: rest)
      (inside : scan.lineStart = false) (blank : isSpace c = true) :
      Step scan [] { scan with cursor := scan.cursor.along 1 }
  | newline {tokens : List Token} {next : Scan} (inside : scan.lineStart = false)
      (breaks : lineBreak scan.cursor.rest ≠ 0)
      (broken : scan.breakLine (lineBreak scan.cursor.rest) = (tokens, next)) :
      Step scan tokens next
  | commentLine {rest : List Char} (here : scan.cursor.rest = '/' :: '/' :: rest)
      (inside : scan.lineStart = false) :
      Step scan [] { scan with cursor := scan.cursor.along (lineComment scan.cursor.rest) }
  | commentBlock {rest : List Char} {next : Cursor} (here : scan.cursor.rest = '/' :: '*' :: rest)
      (inside : scan.lineStart = false) (closed : scan.cursor.blockComment = .ok next) :
      Step scan [] { scan with cursor := next }
  | lexeme {c : Char} {rest : List Char} {item : Lexeme} (here : scan.cursor.rest = c :: rest)
      (inside : scan.lineStart = false) (solid : isSpace c = false ∧ lineBreak (c :: rest) = 0)
      (read : lexeme scan.cursor.previous c rest = .ok item) :
      Step scan [scan.cursor.token item.kind item.spelling.length]
        { scan with
          cursor := scan.cursor.along item.spelling.length
          parens := parensAfter scan.parens item.kind }

theorem step_ok {scan next : Scan} {c : Char} {rest : List Char} {tokens : List Token}
    (here : scan.cursor.rest = c :: rest) (h : scan.step c rest = .ok (tokens, next)) :
    Step scan tokens next := by
  unfold step at h
  split at h
  · next starts =>
    split at h
    · cases h
    · next first indented => exact .line starts indented h
  · next inside =>
    have inside : scan.lineStart = false := by simpa using inside
    split at h
    · next blank =>
      cases h
      exact .space here inside blank
    · next solid =>
      split at h
      · next breaks =>
        rw [← here] at breaks h
        exact .newline inside breaks (Except.ok.inj h)
      · next unbroken =>
        split at h
        · next comment =>
          cases h
          obtain ⟨rfl, second⟩ := comment
          obtain ⟨more, rfl⟩ := List.head?_eq_some_iff.1 second
          rw [← here]
          exact .commentLine here inside
        · split at h
          · next comment =>
            obtain ⟨rfl, second⟩ := comment
            obtain ⟨more, rfl⟩ := List.head?_eq_some_iff.1 second
            split at h
            · cases h
            · next closed =>
              cases h
              exact .commentBlock here inside closed
          · split at h
            · cases h
            · next read =>
              cases h
              exact .lexeme here inside ⟨by simpa using solid, by simpa using unbroken⟩ read

theorem startLine_cursor {scan next : Scan} {first : Cursor} {tokens : List Token}
    (h : scan.startLine first = .ok (tokens, next)) :
    next.cursor = first ∧ next.lineStart = false := by
  unfold startLine at h
  split at h
  · cases h
    exact ⟨rfl, rfl⟩
  · simp only at h
    split at h
    · cases h
      exact ⟨rfl, rfl⟩
    · cases h

theorem rest_breakLine (scan : Scan) (n : Nat) :
    (scan.breakLine n).2.cursor.rest = scan.cursor.rest.drop n := by
  unfold breakLine
  split <;> rfl

/-- The work that is left: twice the characters, and the start of a line. -/
def size (scan : Scan) : Nat := 2 * scan.cursor.rest.length + scan.lineStart.toNat

/-- A step that takes a character away leaves less work, whether or not a line starts behind it. -/
theorem size_lt_of_rest {scan next : Scan}
    (h : next.cursor.rest.length < scan.cursor.rest.length) : next.size < scan.size := by
  have := Bool.toNat_le next.lineStart
  unfold size
  omega

theorem Step.size_lt {scan next : Scan} {tokens : List Token} (h : Step scan tokens next) :
    next.size < scan.size := by
  cases h with
  | line starts indented opened =>
    obtain ⟨ec, el⟩ := startLine_cursor opened
    have := length_rest_indentation indented
    simp only [size, ec, el, starts, Bool.toNat_true, Bool.toNat_false]
    omega
  | space here =>
    apply size_lt_of_rest
    simp [here]
  | newline _ breaks broken =>
    apply size_lt_of_rest
    have : scan.cursor.rest ≠ [] := by
      intro none
      rw [none] at breaks
      exact breaks rfl
    have := List.length_pos_iff.2 this
    have := rest_breakLine scan (lineBreak scan.cursor.rest)
    rw [broken] at this
    rw [this, List.length_drop]
    omega
  | commentLine here =>
    apply size_lt_of_rest
    have : 0 < lineComment scan.cursor.rest := by simp [lineComment, here]
    have : 0 < scan.cursor.rest.length := by simp [here]
    simp only [Cursor.rest_along, List.length_drop]
    omega
  | commentBlock _ _ closed => exact size_lt_of_rest (length_rest_blockComment closed)
  | @lexeme _ _ item here =>
    apply size_lt_of_rest
    have := List.length_pos_iff.2 item.spelling_ne_nil
    have : 0 < scan.cursor.rest.length := by simp [here]
    simp only [Cursor.rest_along, List.length_drop]
    omega

/-- The tokens from here to the end, after those already cut, which are held in reverse. -/
def run (scan : Scan) (cut : List Token) : Except (Located LexFault) (List Token) :=
  match _hr : scan.cursor.rest with
  | [] => .ok (cut.reverse ++ scan.closing)
  | c :: rest =>
    match _hs : scan.step c rest with
    | .error e => .error e
    | .ok (tokens, next) => run next (tokens.reverse ++ cut)
termination_by scan.size
decreasing_by exact (step_ok _hr _hs).size_lt

end Scan

/-- The tokens of a source, the end of the input included. -/
def tokenize (source : String) : Except (Located LexFault) (List Token) :=
  (Scan.start source.toList).run []

end StylusToScss
