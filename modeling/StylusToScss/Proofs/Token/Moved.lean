import StylusToScss.Proofs.Slice
import StylusToScss.Proofs.Token.Steps

/-!
# A text elsewhere in a source

The tokens of a text hardly depend on what stands before it. A `Move` says where its offsets, lines
and columns are found in another source; what the scanner cuts there are the tokens of the text,
moved, and it fails there at the place where it fails on the text (`Scan.Moved.run`). The only
character before the text that counts is the one before a hyphen, which may be the sign of a number.
-/

namespace StylusToScss

/-- Where the offsets of a text are found in another source, by how many lines its lines are raised
there, and where the columns of each of its lines are found. -/
structure Move where
  offset : Nat → Nat
  lines : Nat
  column : Nat → Nat → Nat
  injective : ∀ {a b : Nat}, offset a = offset b → a = b

/-- The move that leaves everything in its place. -/
def Move.none : Move := ⟨id, 0, fun _ column => column, id⟩

/-- Behind so many more bytes and characters of a line. -/
def Move.further (line bytes characters : Nat) : Move where
  offset n := n + bytes
  lines := 0
  column other column := if other = line then column + characters else column
  injective := Nat.add_right_cancel

/-- All lines and columns are left in their places. -/
def Move.Still (move : Move) : Prop := (move.lines, move.column) = (0, fun _ column => column)

/-- From this offset on, all offsets are moved equally far. -/
def Move.ShiftsFrom (move : Move) (start : Nat) : Prop :=
  ∀ n, move.offset (start + n) = move.offset start + n

/-- The span where the text has been moved to. -/
def Span.moved (move : Move) (span : Span) : Span :=
  ⟨move.offset span.start, move.offset span.stop, span.line + move.lines,
    move.column span.line span.column⟩

/-- The token where the text has been moved to. -/
def Token.moved (move : Move) (token : Token) : Token := ⟨token.kind, token.span.moved move⟩

/-- The failure where the text has been moved to. -/
def Located.moved {ε : Type} (move : Move) (fault : Located ε) : Located ε :=
  ⟨fault.cause, fault.line + move.lines, move.column fault.line fault.column⟩

variable {move : Move}

theorem Located.moved_still {ε : Type} (still : move.Still) (fault : Located ε) :
    fault.moved move = fault := by
  obtain ⟨lines, column⟩ := Prod.mk.inj still
  rw [Located.moved, lines, column]
  rfl

/-- Where all lines and columns are left, a failure that has been moved is the same one. -/
theorem Carries.of_moved {ε α β : Type} {good : α → β → Prop} {x : Except (Located ε) α}
    {x' : Except (Located ε) β} (h : Agree good (fun e e' => e' = e.moved move) x x') :
    Carries move.Still good x x' :=
  .of_agree h fun still e _ same => same.trans (e.moved_still still)

namespace Token

@[simp] theorem kind_moved (token : Token) : (token.moved move).kind = token.kind := rfl

@[simp] theorem line_moved (token : Token) :
    (token.moved move).span.line = token.span.line + move.lines := rfl

theorem touches_moved (token next : Token) :
    (token.moved move).touches (next.moved move) = token.touches next := by
  have same : move.offset token.span.stop = move.offset next.span.start ↔
      token.span.stop = next.span.start := ⟨move.injective, congrArg _⟩
  rw [Bool.eq_iff_iff, touches, touches, beq_iff_eq, beq_iff_eq]
  exact same

/-- A failure on a line that is not moved is reported at the same place. -/
theorem fault_moved {ε : Type} (still : move.Still) (token : Token) (cause : ε) :
    (token.moved move).fault cause = token.fault cause :=
  (token.fault cause).moved_still still

end Token

theorem Move.ShiftsFrom.add {start : Nat} (h : move.ShiftsFrom start) (n : Nat) :
    move.ShiftsFrom (start + n) := by
  intro k
  rw [Nat.add_assoc, h, h, Nat.add_assoc]

/-! ## Places -/

namespace Cursor

/-- The same text is left at both places, and the second one is where the first is moved to: from
there on, all columns of the line are moved equally far, and those of later lines are left. The
characters before the places let a hyphen be the sign of a number alike. -/
structure Moved (move : Move) (cursor cursor' : Cursor) : Prop where
  rest : cursor'.rest = cursor.rest
  offset : cursor'.offset = move.offset cursor.offset
  shifts : move.ShiftsFrom cursor.offset
  line : cursor'.line = cursor.line + move.lines
  column : cursor'.column = move.column cursor.line cursor.column
  shiftsLine : ∀ n, move.column cursor.line (cursor.column + n) =
    move.column cursor.line cursor.column + n
  later : ∀ line, cursor.line < line → ∀ column, move.column line column = column
  sign : ∀ text, cursor.rest = '-' :: text → Lexeme.startsNumber text = true →
    Lexeme.signAllowed cursor'.previous = Lexeme.signAllowed cursor.previous

namespace Moved

variable {cursor cursor' : Cursor}

theorem fault {ε : Type} (h : cursor.Moved move cursor') (cause : ε) :
    cursor'.fault cause = (cursor.fault cause).moved move := by
  rw [Cursor.fault, h.line, h.column]
  rfl

theorem offset_along (h : cursor.Moved move cursor') (n : Nat) :
    (cursor'.along n).offset = move.offset (cursor.along n).offset := by
  show cursor'.offset + byteLength (cursor'.rest.take n) = move.offset (_ + _)
  rw [h.rest, h.offset, h.shifts]

theorem sign_along (h : cursor.Moved move cursor') (n : Nat) :
    ∀ text, (cursor.along n).rest = '-' :: text → Lexeme.startsNumber text = true →
      Lexeme.signAllowed (cursor'.along n).previous =
        Lexeme.signAllowed (cursor.along n).previous := by
  intro text here number
  show Lexeme.signAllowed ((cursor'.rest.take n).getLast?.or _) =
    Lexeme.signAllowed ((cursor.rest.take n).getLast?.or _)
  rw [h.rest]
  cases passed : (cursor.rest.take n).getLast? with
  | some c => rfl
  | none =>
    refine h.sign text ?_ number
    rw [List.getLast?_eq_none_iff] at passed
    have split := List.take_append_drop n cursor.rest
    rw [passed, List.nil_append] at split
    exact split.symm.trans here

theorem along (h : cursor.Moved move cursor') (n : Nat) :
    (cursor.along n).Moved move (cursor'.along n) where
  rest := congrArg (List.drop n) h.rest
  offset := h.offset_along n
  shifts := h.shifts.add _
  line := h.line
  column := by
    show cursor'.column + (cursor'.rest.take n).length = _
    rw [h.rest, h.column]
    exact (h.shiftsLine _).symm
  shiftsLine := fun k => by
    show move.column cursor.line (cursor.column + (cursor.rest.take n).length + k) =
      move.column cursor.line (cursor.column + (cursor.rest.take n).length) + k
    rw [Nat.add_assoc, h.shiftsLine, h.shiftsLine, Nat.add_assoc]
  later := h.later
  sign := h.sign_along n

theorem nextLine (h : cursor.Moved move cursor') (n : Nat) :
    (cursor.nextLine n).Moved move (cursor'.nextLine n) where
  rest := congrArg (List.drop n) h.rest
  offset := h.offset_along n
  shifts := h.shifts.add _
  line := by
    show cursor'.line + 1 = cursor.line + 1 + move.lines
    have := h.line
    omega
  column := (h.later _ (Nat.lt_succ_self _) 1).symm
  shiftsLine := fun k => by
    have later := h.later _ (Nat.lt_succ_self cursor.line)
    exact (later _).trans (congrArg (· + k) (later 1).symm)
  later := fun line above => h.later line (Nat.lt_of_succ_lt above)
  sign := h.sign_along n

/-- A line and a column are where the move puts them from there on. -/
structure Faces (move : Move) (place : Nat × Nat) : Prop where
  shiftsLine : ∀ n, move.column place.1 (place.2 + n) = move.column place.1 place.2 + n
  later : ∀ line, place.1 < line → ∀ column, move.column line column = column

theorem foldl_afterChar_moved (text : List Char) (place : Nat × Nat) (h : Faces move place) :
    text.foldl afterChar (place.1 + move.lines, move.column place.1 place.2) =
        ((text.foldl afterChar place).1 + move.lines,
          move.column (text.foldl afterChar place).1 (text.foldl afterChar place).2) ∧
      Faces move (text.foldl afterChar place) := by
  induction text generalizing place with
  | nil => exact ⟨rfl, h⟩
  | cons c text ih =>
    rw [List.foldl_cons, List.foldl_cons]
    by_cases feed : c = '\n'
    · have later := h.later _ (Nat.lt_succ_self place.1)
      have nextLine (place : Nat × Nat) : afterChar place c = (place.1 + 1, 1) := if_pos feed
      have next := ih (place.1 + 1, 1)
        ⟨fun n => (later _).trans (congrArg (· + n) (later 1).symm),
          fun line above => h.later line (Nat.lt_of_succ_lt above)⟩
      rw [nextLine, nextLine, Nat.add_right_comm]
      rwa [later] at next
    · have along (place : Nat × Nat) : afterChar place c = (place.1, place.2 + 1) := if_neg feed
      have next := ih (place.1, place.2 + 1)
        ⟨fun n => by rw [Nat.add_assoc, h.shiftsLine, h.shiftsLine, Nat.add_assoc], h.later⟩
      rw [along, along]
      rwa [h.shiftsLine] at next

theorem across (h : cursor.Moved move cursor') (n : Nat) :
    (cursor.across n).Moved move (cursor'.across n) := by
  obtain ⟨place, faces⟩ := foldl_afterChar_moved (cursor.rest.take n)
    (cursor.line, cursor.column) ⟨h.shiftsLine, h.later⟩
  have same : (cursor'.rest.take n).foldl afterChar (cursor'.line, cursor'.column) =
      ((cursor.across n).line + move.lines,
        move.column (cursor.across n).line (cursor.across n).column) := by
    rw [h.rest, h.line, h.column]
    exact place
  exact ⟨congrArg (List.drop n) h.rest, h.offset_along n, h.shifts.add _, congrArg Prod.fst same,
    congrArg Prod.snd same, faces.shiftsLine, faces.later, h.sign_along n⟩

theorem token (h : cursor.Moved move cursor') (kind : Kind) (n : Nat) :
    cursor'.token kind n = (cursor.token kind n).moved move := by
  show Token.mk kind ⟨cursor'.offset, (cursor'.along n).offset, cursor'.line, cursor'.column⟩ = _
  rw [h.offset, h.offset_along, h.line, h.column]
  rfl

/-- A line break takes at least one byte, so the place before its end is moved with it. -/
theorem breakToken (h : cursor.Moved move cursor') {n : Nat}
    (some : byteLength (cursor.rest.take n) ≠ 0) :
    cursor'.breakToken n = (cursor.breakToken n).moved move := by
  obtain ⟨k, bytes⟩ := Nat.exists_eq_succ_of_ne_zero some
  have stop := h.offset_along n
  have before : (cursor'.along n).offset - 1 = move.offset ((cursor.along n).offset - 1) := by
    rw [stop]
    show move.offset (cursor.offset + byteLength _) - 1 = move.offset (_ + byteLength _ - 1)
    rw [bytes, h.shifts]
    exact (h.shifts k).symm
  show Token.mk .newline ⟨_, (cursor'.along n).offset, (cursor'.along n).line,
    (cursor'.along n).column⟩ = _
  rw [before, stop, (h.along n).line, (h.along n).column]
  rfl

theorem behindSpaces (h : cursor.Moved move cursor') :
    cursor.behindSpaces.Moved move cursor'.behindSpaces := by
  unfold Cursor.behindSpaces
  rw [h.rest]
  exact h.along _

theorem blockComment (h : cursor.Moved move cursor') :
    Agree (Moved move) (fun e e' => e' = e.moved move) cursor.blockComment
      cursor'.blockComment := by
  unfold Cursor.blockComment
  rw [h.rest]
  cases commentEnd? (cursor.rest.drop 2) with
  | none => exact h.fault _
  | some n => exact h.across _

/-- How many blanks stand before the first thing on the line does not count. -/
theorem indentation (blank : cursor.behindSpaces.Moved move cursor'.behindSpaces) :
    Agree (Moved move) (fun e e' => e' = e.moved move) cursor.indentation
      cursor'.indentation := by
  rcases comment_cases cursor.behindSpaces.rest with ⟨_, here⟩ | ⟨_, here⟩ | plain
  · rw [indentation_lineComment here, indentation_lineComment (blank.rest.trans here), blank.rest]
    exact blank.along _
  · rw [indentation_blockComment here, indentation_blockComment (blank.rest.trans here)]
    exact blank.blockComment.map fun _ _ closed => closed.behindSpaces
  · rw [indentation_plain plain, indentation_plain (blank.rest ▸ plain)]
    exact blank

end Moved
end Cursor

/-! ## Steps and runs -/

theorem byteLength_lineBreak {text : List Char} (breaks : lineBreak text ≠ 0) :
    byteLength (text.take (lineBreak text)) ≠ 0 := by
  rw [Ne, byteLength_eq_zero_iff, List.take_eq_nil_iff, not_or]
  refine ⟨breaks, ?_⟩
  rintro rfl
  exact breaks rfl

/-- The character before a lexeme counts only for a hyphen before a number. -/
theorem lexeme_previous {previous previous' : Option Char} {c : Char} {rest : List Char}
    (sign : c = '-' → Lexeme.startsNumber rest = true →
      Lexeme.signAllowed previous' = Lexeme.signAllowed previous) :
    lexeme previous' c rest = lexeme previous c rest := by
  have same : (c = '-' ∧ Lexeme.startsNumber rest ∧ Lexeme.signAllowed previous') ↔
      (c = '-' ∧ Lexeme.startsNumber rest ∧ Lexeme.signAllowed previous) :=
    and_congr_right fun hyphen => and_congr_right fun number => by rw [sign hyphen number]
  unfold lexeme
  simp only [same]

namespace Scan

/-- The scans stand at places of which the second is where the first is moved to, and agree on
everything else. -/
structure Moved (move : Move) (scan scan' : Scan) : Prop where
  cursor : scan.cursor.Moved move scan'.cursor
  levels : scan'.levels = scan.levels
  parens : scan'.parens = scan.parens
  lineStart : scan'.lineStart = scan.lineStart

/-- The second step cuts the tokens of the first one, moved, and leads to where that one does, or it
fails where the first one does. -/
abbrev StepsMoved (move : Move) : Except (Located LexFault) (List Token × Scan) →
    Except (Located LexFault) (List Token × Scan) → Prop :=
  Agree (fun cut cut' => cut'.1 = cut.1.map (·.moved move) ∧ cut.2.Moved move cut'.2)
    fun e e' => e' = e.moved move

namespace Moved

variable {scan scan' : Scan}

theorem startLine {first first' : Cursor} (h : scan.Moved move scan')
    (hf : first.Moved move first') :
    StepsMoved move (scan.startLine first) (scan'.startLine first') := by
  unfold Scan.startLine
  rw [hf.rest, h.cursor.rest, h.levels]
  split
  · exact ⟨rfl, hf, rfl, h.parens, rfl⟩
  · simp only
    cases reindent scan.levels (spaces scan.cursor.rest) with
    | none => exact hf.fault _
    | some opened =>
      refine ⟨?_, hf, rfl, h.parens, rfl⟩
      rw [List.map_map]
      exact List.map_congr_left fun kind _ => hf.token kind 0

theorem breakLine (h : scan.Moved move scan') (breaks : lineBreak scan.cursor.rest ≠ 0) :
    StepsMoved move (.ok (scan.breakLine (lineBreak scan.cursor.rest)))
      (.ok (scan'.breakLine (lineBreak scan.cursor.rest))) := by
  have some := byteLength_lineBreak breaks
  unfold Scan.breakLine
  rw [h.parens]
  split
  · refine ⟨?_, h.cursor.nextLine _, h.levels, rfl, rfl⟩
    rw [h.cursor.breakToken some]
    rfl
  · exact ⟨rfl, h.cursor.nextLine _, h.levels, rfl, h.lineStart⟩

theorem step {c : Char} {rest : List Char} (h : scan.Moved move scan')
    (here : scan.cursor.rest = c :: rest) :
    StepsMoved move (scan.step c rest) (scan'.step c rest) := by
  cases starts : scan.lineStart with
  | true =>
    rw [step_line starts, step_line (h.lineStart.trans starts)]
    exact h.cursor.behindSpaces.indentation.bind fun first first' hf => h.startLine hf
  | false =>
    have inside := starts
    have inside' := h.lineStart.trans starts
    cases front_cases c rest with
    | space blank =>
      rw [step_space inside blank, step_space inside' blank]
      exact ⟨rfl, h.cursor.along 1, h.levels, h.parens, h.lineStart⟩
    | newline breaks =>
      rw [step_newline inside breaks, step_newline inside' breaks, ← here]
      exact h.breakLine (here ▸ breaks)
    | lineComment =>
      rw [step_lineComment inside, step_lineComment inside']
      exact ⟨rfl, h.cursor.along _, h.levels, h.parens, h.lineStart⟩
    | blockComment =>
      rw [step_blockComment inside, step_blockComment inside']
      exact h.cursor.blockComment.map fun next next' closed =>
        ⟨rfl, closed, h.levels, h.parens, h.lineStart⟩
    | lexeme solid unbroken plain =>
      have same : lexeme scan'.cursor.previous c rest = lexeme scan.cursor.previous c rest :=
        lexeme_previous fun hyphen number => h.cursor.sign rest (hyphen ▸ here) number
      rw [step_lexeme_eq inside solid unbroken plain, step_lexeme_eq inside' solid unbroken plain,
        same]
      cases lexeme scan.cursor.previous c rest with
      | error e => exact (h.cursor.along _).fault _
      | ok item =>
        refine ⟨?_, h.cursor.along _, h.levels, ?_, h.lineStart⟩
        · rw [h.cursor.token]
          rfl
        · exact congrArg (parensAfter · item.kind) h.parens

theorem closing (h : scan.Moved move scan') :
    scan'.closing = scan.closing.map (·.moved move) := by
  unfold Scan.closing
  rw [List.map_append, List.map_replicate, h.levels, h.cursor.token, h.cursor.token]
  rfl

/-- From where a text is moved to, the scanner cuts the tokens of the text, moved. -/
theorem run {cut : List Token} (h : scan.Moved move scan') (cut' : List Token) :
    Agree (fun tokens tokens' => ∃ more, tokens = cut.reverse ++ more ∧
        tokens' = cut'.reverse ++ more.map (·.moved move))
      (fun e e' => e' = e.moved move) (scan.run cut) (scan'.run cut') := by
  fun_induction Scan.run scan cut generalizing scan' cut' with
  | case1 scan cut ended =>
    rw [run_done cut' (h.cursor.rest.trans ended), h.closing]
    exact ⟨_, rfl, rfl⟩
  | case2 scan cut c rest here fault failed =>
    obtain ⟨fault', failed', moved⟩ := (h.step here).of_eq_error failed
    rw [run_failed cut' (h.cursor.rest.trans here) failed']
    exact moved
  | case3 scan cut c rest here tokens next stepped ih =>
    obtain ⟨⟨_, next'⟩, stepped', rfl, moved⟩ := (h.step here).of_eq_ok stepped
    rw [run_step cut' (h.cursor.rest.trans here) stepped']
    refine (ih moved _).mono ?_ fun _ _ same => same
    rintro _ _ ⟨more, rfl, rfl⟩
    refine ⟨tokens ++ more, ?_, ?_⟩
    · rw [List.reverse_append, List.reverse_reverse, List.append_assoc]
    · rw [List.reverse_append, List.reverse_reverse, List.append_assoc, List.map_append]

end Moved
end Scan
end StylusToScss
