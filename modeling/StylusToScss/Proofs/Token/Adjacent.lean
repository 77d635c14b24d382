import StylusToScss.Proofs.Token.Cutting
import StylusToScss.Proofs.Token.Inserted
import StylusToScss.Proofs.Token.Lines

/-!
# Texts next to each other

A text that starts with its first token and ends with its last one (`Fills`) is cut into these
tokens wherever it stands on a line: in front of a blank they are the same ones
(`comes_before_blank`), and behind other tokens they are moved (`tokenize_behind`).
-/

namespace StylusToScss

variable {text rest source : List Char} {tokens before : List Token} {token last : Token}

/-- Nothing of the text stands in front of the first token or behind the last one. -/
structure Fills (tokens : List Token) (text : List Char) : Prop where
  starts : ∀ token ∈ tokens.head?, token.span.start = 0
  stops : ∀ token ∈ tokens.getLast?, token.span.stop = byteLength text

/-- None of the tokens ends a line. -/
def Content (tokens : List Token) : Prop := ∀ token ∈ tokens, token.kind.endsLine = false

theorem Content.openIndents (h : Content tokens) : openIndents tokens = [] := by
  induction tokens using List.reverseRecOn with
  | nil => rfl
  | append_singleton tokens token ih =>
    have content := h token (by simp)
    rw [openIndents_other, ih fun other mem => h other (List.mem_append_left _ mem)]
    · intro indent
      rw [indent] at content
      cases content
    · intro dedent
      rw [dedent] at content
      cases content

/-- Behind so many bytes and lines, with the first line at this column. -/
def Move.onto (bytes lines column : Nat) : Move where
  offset := (bytes + ·)
  lines := lines
  column line other := if line = 1 then column + (other - 1) else other
  injective := Nat.add_left_cancel

namespace Scan

variable {scan next : Scan} {previous final : Option Char} {kinds : List Kind}

theorem Comes.line_pos (comes : Comes source before scan) : 1 ≤ scan.cursor.line := by
  induction comes with
  | start => exact Nat.le_refl _
  | step _ here stepped ih =>
    have further := (step_ok here stepped).line_le.1
    omega

/-- Behind tokens of a line, no level and no parenthesis is open that they do not open. -/
theorem Comes.flat (comes : Comes source before scan) (content : Content before) :
    scan.levels = [] ∧ scan.parens = openParens before := by
  have reached : Reached (String.ofList source).toList before scan := by
    rw [String.toList_ofList]
    exact comes.reached
  have leveled := reached.leveled
  refine ⟨?_, leveled.parens⟩
  have levels := leveled.levels
  rw [content.openIndents, List.map_nil] at levels
  exact List.map_eq_nil_iff.1 levels

/-- The scanner comes to the end of a text that is cut into lexemes. -/
theorem Comes.of_cuts (cuts : Cuts previous text kinds final rest)
    (comes : Comes source before scan) (inside : Inside previous text scan) :
    ∃ tokens next, Comes source (before ++ tokens) next ∧ Inside final rest next ∧
      tokens.map (·.kind) = kinds := by
  induction cuts generalizing before scan with
  | nil =>
    refine ⟨[], scan, ?_, inside, rfl⟩
    rwa [List.append_nil]
  | @blank previous last text rest kinds more ih =>
    have spelled : Inside previous ([' '] ++ text) scan := inside
    have behind := comes.step inside.here (step_space inside.begun rfl)
    rw [List.append_nil] at behind
    exact ih behind (spelled.along (List.cons_ne_nil _ _) scan.parens)
  | @lexeme previous last spelling text rest kind kinds notNil front more ih =>
    obtain ⟨c, tail, same, solid, read⟩ := front.front
    rw [← inside.before] at read
    have behind := comes.step (inside.here.trans same) (step_lexeme inside.begun solid read)
    obtain ⟨tokens, next, comes', inside', same'⟩ :=
      ih behind (inside.along notNil (parensAfter scan.parens kind))
    rw [List.append_assoc] at comes'
    exact ⟨_, next, comes', inside', congrArg (_ :: ·) same'⟩

/-- The scanner stands in front of a text that starts with its first token. -/
theorem exists_start (cut : tokenize (String.ofList text) = .ok (token :: tokens))
    (content : token.kind.endsLine = false) (starts : token.span.start = 0) :
    ∃ scan, Comes text [] scan ∧ Inside none text scan ∧ scan.parens = 0 ∧
      scan.cursor.offset = 0 ∧ (scan.cursor.line, scan.cursor.column) = (1, 1) := by
  have cut' : tokenize (String.ofList text) = .ok ([] ++ token :: tokens) := cut
  obtain ⟨scan, c, rest, item, next, comes, cuts⟩ := exists_cutsLexeme cut' content
  have offset : scan.cursor.offset = 0 := by
    rw [← starts, cuts.token]
    rfl
  obtain ⟨passed, stands⟩ := comes.stands ⟨nofun, fun passed body _ less => by
    rw [offset] at less
    cases less⟩
  obtain rfl : passed = [] := byteLength_eq_zero_iff.1 (stands.offset.symm.trans offset)
  obtain ⟨flat, closed⟩ := comes.flat nofun
  exact ⟨scan, comes, ⟨stands.previous, stands.split.symm, cuts.inside, flat⟩, closed, offset,
    stands.place⟩

/-- Inside a line, the next token is the lexeme that stands there. -/
theorem Comes.exists_lexeme {c : Char} (comes : Comes source before scan)
    (inside : Inside previous (c :: rest) scan) (solid : c ∉ [' ', '\t', '\n', '\r', '/'])
    (cut : tokenize (String.ofList source) = .ok tokens) : ∃ item token more,
      lexeme previous c rest = .ok item ∧ token.kind = item.kind ∧
        tokens = before ++ token :: more := by
  rw [comes.tokenize_eq, run] at cut
  split at cut
  · next none =>
    rw [inside.here] at none
    cases none
  · next c' rest' here =>
    obtain ⟨rfl, rfl⟩ := List.cons.inj (inside.here.symm.trans here)
    have other : c ≠ '/' := by
      rintro rfl
      exact solid (by decide)
    obtain ⟨blank, unbroken⟩ := visible_spec (fun h => solid (List.mem_append_left ['/'] h)) rest
    have plain : ¬ StartsComment (c :: rest) := by
      rintro ⟨more, here | here⟩ <;> exact other (List.cons.inj here).1
    have stepped := step_lexeme_eq inside.begun blank unbroken plain
    rw [inside.before] at stepped
    split at cut
    · cases cut
    · next step =>
      rw [stepped] at step
      split at step
      · cases step
      · next item read =>
        cases step
        obtain ⟨more, rfl, -⟩ := run_ok cut
        exact ⟨item, scan.cursor.token item.kind item.spelling.length, more, read, rfl, by simp⟩

/-- Inside a line of the source, a text stands where it is moved to from its start. -/
theorem Inside.moved {start : Scan} (inside : Inside previous text scan) (closed : scan.parens = 0)
    (line : 1 ≤ scan.cursor.line) (inside' : Inside none text start) (closed' : start.parens = 0)
    (offset : start.cursor.offset = 0)
    (place : (start.cursor.line, start.cursor.column) = (1, 1))
    (sign : ∀ rest, text = '-' :: rest → Lexeme.startsNumber rest = true →
      Lexeme.signAllowed previous = true) :
    start.Moved (.onto scan.cursor.offset (scan.cursor.line - 1) scan.cursor.column) scan := by
  obtain ⟨first, column⟩ := Prod.mk.inj place
  have onto (bytes lines column n : Nat) :
      (Move.onto bytes lines column).column 1 (1 + n) = column + n := by
    show column + (1 + n - 1) = column + n
    omega
  refine ⟨⟨inside.here.trans inside'.here.symm, ?_, fun n => (Nat.add_assoc ..).symm, ?_, ?_, ?_,
    ?_, ?_⟩, inside.flat.trans inside'.flat.symm, closed.trans closed'.symm,
    inside.begun.trans inside'.begun.symm⟩
  · rw [offset]
    rfl
  · rw [first]
    show scan.cursor.line = 1 + (scan.cursor.line - 1)
    omega
  · rw [first, column]
    exact (onto _ _ _ 0).symm
  · intro n
    rw [first, column, onto]
    exact congrArg (· + n) (onto _ _ _ 0).symm
  · intro later above column
    rw [first] at above
    exact if_neg (Nat.ne_of_gt above)
  · intro rest hyphen number
    rw [inside.before, inside'.before]
    exact sign rest (inside'.here.symm.trans hyphen) number

end Scan

/-- The first token of a text that starts with no blank, no line break and no comment. -/
theorem exists_first {c : Char} (solid : c ∉ [' ', '\t', '\n', '\r', '/'])
    (cut : tokenize (String.ofList (c :: rest)) = .ok tokens) : ∃ item token more,
      lexeme none c rest = .ok item ∧ token.kind = item.kind ∧ tokens = token :: more := by
  obtain ⟨start, stepped, inside⟩ := Scan.step_start rest solid
  exact (Scan.Comes.start.step rfl stepped).exists_lexeme inside solid cut

/-- Behind other tokens of a line, a text is cut into its tokens, moved. -/
theorem tokenize_behind {scan : Scan} {previous : Option Char}
    (comes : Scan.Comes source before scan) (inside : Scan.Inside previous text scan)
    (closed : scan.parens = 0) (cut : tokenize (String.ofList text) = .ok (token :: tokens))
    (content : token.kind.endsLine = false) (starts : token.span.start = 0)
    (sign : ∀ rest, text = '-' :: rest → Lexeme.startsNumber rest = true →
      Lexeme.signAllowed previous = true) :
    ∃ move : Move, tokenize (String.ofList source) =
      .ok (before ++ (token :: tokens).map (·.moved move)) := by
  obtain ⟨start, comes', inside', closed', offset, place⟩ := Scan.exists_start cut content starts
  have moved := inside.moved closed comes.line_pos inside' closed' offset place sign
  rw [comes'.tokenize_eq] at cut
  obtain ⟨_, run, more, same, rfl⟩ := (moved.run before.reverse).of_eq_ok cut
  refine ⟨.onto scan.cursor.offset (scan.cursor.line - 1) scan.cursor.column, ?_⟩
  obtain rfl : token :: tokens = more := same
  rw [comes.tokenize_eq, run, List.reverse_reverse]

/-- In front of a blank, a text that ends with its last token is cut into its tokens. -/
theorem comes_before_blank (cut : tokenize (String.ofList text) = .ok (before ++ [token, last]))
    (content : Content (before ++ [token])) (stops : token.span.stop = byteLength text)
    (rest : List Char) : ∃ previous scan,
      Scan.Comes (text ++ ' ' :: rest) (before ++ [token]) scan ∧
        Scan.Inside previous (' ' :: rest) scan := by
  have whole : text ++ [] = text := List.append_nil text
  rw [← whole] at cut
  obtain ⟨scan, c, behind, item, next, comes, cuts⟩ :=
    Scan.exists_cutsLexeme cut (content token (by simp))
  obtain ⟨ends, none⟩ := cuts.place comes stops
  have exchanges : Exchanges next.cursor.rest (' ' :: rest) := by
    rw [← none]
    refine ⟨nofun, ?_, ?_⟩
    · rintro _ ⟨⟩
      decide
    · rintro ⟨⟩
  rw [none] at comes
  have comes' := cuts.exchange exchanges (List.cons_ne_nil _ _) comes ends
  refine ⟨_, _, comes', ⟨rfl, rfl, ?_, (comes'.flat content).1⟩⟩
  show next.lineStart = false
  rw [cuts.next]
  exact cuts.inside

end StylusToScss
