import StylusToScss.Proofs.Token.Blanks
import StylusToScss.Proofs.Token.Positions
import StylusToScss.Proofs.Token.Rescaled

/-!
# Lines of blanks and comments

A logical line that holds only blanks and comments cuts no tokens (`Scan.run_idleLine`), if it holds
one comment at most, or is indented as wide as the innermost open level: the start of a line passes
the first comment, and takes a second one for the first lexeme of the line. So the tokens are those
of the source in which the line is empty; those behind it are moved (`agree_tokenize_idle`).
-/

namespace StylusToScss

variable {line gap text back front : List Char} {n : Nat}

/-- Blanks and so many comments, which end on their line. -/
inductive Idle : Nat → List Char → Prop
  | blanks {gap : List Char} (blank : ∀ c ∈ gap, isSpace c = true) : Idle 0 gap
  | line {gap text : List Char} (blank : ∀ c ∈ gap, isSpace c = true) (unbroken : Unbroken text) :
      Idle 1 (gap ++ '/' :: '/' :: text)
  | block {n : Nat} {gap body rest : List Char} (blank : ∀ c ∈ gap, isSpace c = true)
      (closes : ¬ ['*', '/'] <:+: body) (unbroken : Unbroken body) (more : Idle n rest) :
      Idle (n + 1) (gap ++ (comment body ++ rest))

/-! ## Passing over the line -/

/-- A comment goes up to the end of its line. -/
theorem lineComment_append (unbroken : Unbroken text) (ends : AtLineEnd back) :
    lineComment ('/' :: '/' :: (text ++ back)) = text.length + 2 := by
  have inside : ∀ c ∈ '/' :: '/' :: text, (c != '\n' && c != '\r') = true := by
    intro c hc
    rcases List.mem_cons.1 hc with rfl | hc
    · rfl
    rcases List.mem_cons.1 hc with rfl | hc
    · rfl
    · simpa using unbroken c hc
  have stops : ∀ c ∈ back.head?, (c != '\n' && c != '\r') = false := by
    intro c hc
    rcases ends c hc with rfl | rfl <;> rfl
  rw [lineComment, ← List.cons_append, ← List.cons_append, List.takeWhile_append_of_pos inside,
    takeWhile_of_stops stops, List.append_nil]
  rfl

theorem AtLineEnd.solid (ends : AtLineEnd back) : ∀ c ∈ back.head?, isSpace c = false := by
  intro c hc
  rcases ends c hc with rfl | rfl <;> rfl

namespace Cursor

/-- A comment on one line is passed like other characters of the line. -/
theorem across_comment {cursor : Cursor} {body : List Char} (unbroken : Unbroken body)
    (here : cursor.rest = comment body ++ back) :
    cursor.across (comment body).length = cursor.along (comment body).length := by
  have taken : cursor.rest.take (comment body).length = comment body := by
    rw [here, List.take_left' rfl]
  have feedless : '\n' ∉ comment body := by
    simpa [comment] using fun feed => (unbroken '\n' feed).1 rfl
  have place := foldl_afterChar_line feedless (cursor.line, cursor.column)
  unfold across
  rw [taken, place]
  unfold along
  rw [taken]

/-- What stands on the line behind its first blanks. -/
theorem rest_behindSpaces {cursor : Cursor} (blank : ∀ c ∈ gap, isSpace c = true)
    (solid : ∀ c ∈ text.head?, isSpace c = false) (here : cursor.rest = gap ++ text) :
    cursor.behindSpaces = cursor.along gap.length ∧ cursor.behindSpaces.rest = text := by
  have behind : cursor.behindSpaces = cursor.along gap.length := by
    unfold behindSpaces
    rw [here, spaces_append blank solid]
  refine ⟨behind, ?_⟩
  rw [behind, rest_along, here, List.drop_left' rfl]

theorem rest_along_append {cursor : Cursor} (here : cursor.rest = text ++ back) :
    (cursor.along text.length).rest = back := by
  rw [rest_along, here, List.drop_left' rfl]

end Cursor

/-- The blanks in front of what is left of the line. -/
theorem Idle.margin (idle : Idle n line) : ∃ gap rest, line = gap ++ rest ∧
    (∀ c ∈ gap, isSpace c = true) ∧ (∀ c ∈ rest.head?, isSpace c = false) ∧ Idle n rest ∧
      (n = 0 → rest = []) := by
  cases idle with
  | blanks blank =>
    refine ⟨line, [], (List.append_nil _).symm, blank, by rintro _ ⟨⟩, .blanks ?_, fun _ => rfl⟩
    exact List.forall_mem_nil _
  | @line gap text blank unbroken =>
    refine ⟨gap, _, rfl, blank, ?_, @Idle.line [] text (List.forall_mem_nil _) unbroken, nofun⟩
    rintro _ ⟨⟩
    rfl
  | @block n gap body rest blank closes unbroken more =>
    refine ⟨gap, _, rfl, blank, ?_,
      @Idle.block n [] body rest (List.forall_mem_nil _) closes unbroken more, nofun⟩
    rintro _ ⟨⟩
    rfl

/-- The blanks at the front of a line, whatever stands behind its end. -/
theorem spaces_append_ended (ends : AtLineEnd back) (line : List Char) :
    spaces (line ++ back) = spaces line := by
  have none : back.takeWhile isSpace = [] := takeWhile_of_stops ends.solid
  unfold spaces
  rw [List.takeWhile_append, none]
  split
  · next whole => rw [List.append_nil, (List.takeWhile_prefix isSpace).eq_of_length whole]
  · rfl

theorem AtLineEnd.plain (ends : AtLineEnd back) : ¬ StartsComment back := by
  rintro ⟨rest, rfl | rfl⟩ <;> rcases ends '/' rfl with same | same <;> cases same

theorem AtLineEnd.solid_append (ends : AtLineEnd back)
    (first : ∀ c ∈ line.head?, isSpace c = false) :
    ∀ c ∈ (line ++ back).head?, isSpace c = false := by
  cases line with
  | nil => exact ends.solid
  | cons c line => exact first

/-- At the start of a line, blanks and the first comment are passed. -/
theorem Idle.indentation {cursor : Cursor} (idle : Idle n line) (ends : AtLineEnd back)
    (here : cursor.rest = line ++ back) : ∃ passed rest, line = passed ++ rest ∧
      cursor.indentation = .ok (cursor.along passed.length) ∧ Idle (n - 1) rest ∧
        (n ≤ 1 → rest = []) := by
  cases idle with
  | blanks blank =>
    obtain ⟨behind, left⟩ := Cursor.rest_behindSpaces blank ends.solid here
    refine ⟨line, [], (List.append_nil _).symm, ?_, .blanks (List.forall_mem_nil _), fun _ => rfl⟩
    rw [Cursor.indentation_plain (left ▸ ends.plain), behind]
  | @line gap text blank unbroken =>
    rw [List.append_assoc] at here
    obtain ⟨behind, left⟩ := Cursor.rest_behindSpaces blank (by rintro _ ⟨⟩; rfl) here
    refine ⟨_, [], (List.append_nil _).symm, ?_, .blanks (List.forall_mem_nil _), fun _ => rfl⟩
    rw [Cursor.indentation_lineComment left, left, behind, Cursor.along_add]
    show Except.ok (cursor.along (gap.length + lineComment ('/' :: '/' :: (text ++ back)))) = _
    rw [lineComment_append unbroken ends, List.length_append]
    rfl
  | @block n gap body rest blank closes unbroken more =>
    obtain ⟨blanks, rest, rfl, blank', solid, more, none⟩ := more.margin
    rw [List.append_assoc, List.append_assoc, List.append_assoc] at here
    obtain ⟨behind, left⟩ := Cursor.rest_behindSpaces blank (by rintro _ ⟨⟩; rfl) here
    have start := left
    rw [comment_append] at start
    have closed : (cursor.along gap.length).blockComment =
        .ok ((cursor.along gap.length).along (comment body).length) := by
      rw [← behind, ← Cursor.across_comment unbroken left]
      unfold Cursor.blockComment
      rw [start, List.drop_succ_cons, List.drop_succ_cons, List.drop_zero,
        commentEnd?_body closes, length_comment]
    have left' : ((cursor.along gap.length).along (comment body).length).rest =
        blanks ++ (rest ++ back) := by
      rw [← behind]
      exact Cursor.rest_along_append left
    obtain ⟨behind', -⟩ := Cursor.rest_behindSpaces blank' (ends.solid_append solid) left'
    refine ⟨gap ++ (comment body ++ blanks), rest, by simp, ?_, more, fun le => none (by omega)⟩
    rw [Cursor.indentation_blockComment start, behind, closed]
    show Except.ok _ = _
    rw [behind', Cursor.along_add, Cursor.along_add, List.length_append, List.length_append]

namespace Scan

variable {scan next : Scan} {tokens before cut : List Token}

/-- Within a line, blanks and comments cut no tokens. -/
theorem run_idle (idle : Idle n line) (ends : AtLineEnd back) (inside : scan.lineStart = false)
    (here : scan.cursor.rest = line ++ back) (cut : List Token) :
    scan.run cut = { scan with cursor := scan.cursor.along line.length }.run cut := by
  induction idle generalizing scan with
  | blanks blank => exact run_gap inside blank here cut
  | @line gap text blank unbroken =>
    rw [List.append_assoc] at here
    have inside' : { scan with cursor := scan.cursor.along gap.length }.lineStart = false := inside
    have stepped := @step_lineComment _ (text ++ back) inside'
    rw [lineComment_append unbroken ends, Cursor.along_add] at stepped
    rw [run_gap inside blank here, run_step _ (Cursor.rest_along_append here) stepped,
      List.reverse_nil, List.nil_append, List.length_append]
    rfl
  | @block n gap body rest blank closes unbroken more ih =>
    rw [List.append_assoc, List.append_assoc] at here
    have inside' : { scan with cursor := scan.cursor.along gap.length }.lineStart = false := inside
    have left := Cursor.rest_along_append here
    have passed := Cursor.across_comment unbroken left
    have left' : ((scan.cursor.along gap.length).along (comment body).length).rest =
        rest ++ back := Cursor.rest_along_append left
    have further := @ih
      { scan with cursor := (scan.cursor.along gap.length).along (comment body).length } inside
      left'
    rw [run_gap inside blank here, run_comment inside' left closes]
    simp only [passed]
    rw [further, Cursor.along_add, Cursor.along_add, List.length_append, List.length_append]

/-- A line that is indented as wide as the innermost open level opens and closes none. -/
theorem startLine_level {first : Cursor}
    (level : spaces scan.cursor.rest = scan.levels.headD 0) :
    scan.startLine first = .ok ([], { scan with cursor := first, lineStart := false }) := by
  have none : reindent scan.levels (spaces scan.cursor.rest) = some ([], scan.levels) := by
    rw [level]
    unfold reindent
    cases scan.levels with
    | nil => rfl
    | cons innermost levels => simp
  unfold startLine
  split
  · rfl
  · simp only [none]
    rfl

/-- A logical line of blanks and comments cuts no tokens, if it holds one comment at most or is
indented as wide as the innermost open level. -/
theorem run_idleLine (idle : Idle n line) (ends : AtLineEnd back) (starts : scan.lineStart = true)
    (here : scan.cursor.rest = line ++ back)
    (meets : n ≤ 1 ∨ spaces line = scan.levels.headD 0) (cut : List Token) : scan.run cut =
      { scan with cursor := scan.cursor.along line.length, lineStart := false }.run cut := by
  obtain ⟨passed, left, rfl, indented, more, none⟩ := idle.indentation ends here
  rw [List.append_assoc] at here
  have behind : (scan.cursor.along passed.length).rest = left ++ back :=
    Cursor.rest_along_append here
  have stepped : scan.startLine (scan.cursor.along passed.length) = .ok ([],
      { scan with cursor := scan.cursor.along passed.length, lineStart := false }) := by
    rcases meets with one | level
    · unfold startLine
      rw [if_pos]
      rw [behind, none one, List.nil_append]
      exact atLineEnd_iff.1 ends
    · refine startLine_level ?_
      rw [here, ← List.append_assoc, spaces_append_ended ends, level]
  have further := @run_idle _ _ _
    { scan with cursor := scan.cursor.along passed.length, lineStart := false } more ends rfl
    behind cut
  rw [Cursor.along_add, ← List.length_append] at further
  rw [← further]
  cases whole : scan.cursor.rest with
  | nil =>
    obtain rfl := (List.append_eq_nil_iff.1 (here.symm.trans whole)).1
    exact (run_done cut whole).trans (@run_done
      { scan with cursor := scan.cursor.along 0, lineStart := false } cut whole).symm
  | cons c rest =>
    have step : scan.step c rest = .ok ([],
        { scan with cursor := scan.cursor.along passed.length, lineStart := false }) := by
      rw [step_line starts, indented]
      exact stepped
    rw [run_step cut whole step]
    rfl

/-- A line starts at the start of the source, or behind a line break. -/
theorem Comes.opened {source : List Char} (comes : Comes source before scan)
    (starts : scan.lineStart = true) : before = [] ∧ scan = .start source ∨
      ∃ earlier broken, Comes source earlier broken ∧ broken.lineStart = false ∧
        broken.parens = 0 ∧ lineBreak broken.cursor.rest ≠ 0 ∧
          before = earlier ++ [broken.cursor.breakToken (lineBreak broken.cursor.rest)] ∧
            scan = { broken with
              cursor := broken.cursor.nextLine (lineBreak broken.cursor.rest)
              lineStart := true } := by
  cases comes with
  | start => exact .inl ⟨rfl, rfl⟩
  | step comes here stepped =>
    cases step_ok here stepped with
    | line _ _ opened =>
      rw [(startLine_cursor opened).2] at starts
      cases starts
    | newline inside breaks broken =>
      rcases breakLine_cases broken with ⟨outside, rfl, rfl⟩ | ⟨-, -, rfl⟩
      · exact .inr ⟨_, _, comes, inside, outside, breaks, rfl, rfl⟩
      · cases inside.symm.trans starts
    | space _ inside | commentLine _ inside | commentBlock _ inside | lexeme _ inside =>
      cases inside.symm.trans starts

/-- What stands at the start of the line does not matter for what has been cut before. -/
theorem Comes.emptied (comes : Comes (front ++ (line ++ back)) before scan)
    (starts : scan.lineStart = true) (here : scan.cursor.rest = line ++ back)
    (delimits : Delimits (line ++ back)) (ends : AtLineEnd back)
    (unpaired : Unpaired front (line ++ back) back) :
    Comes (front ++ back) before (scan.facing back) := by
  rcases comes.opened starts with ⟨rfl, rfl⟩ | ⟨earlier, broken, ahead, inside, outside, breaks,
    rfl, rfl⟩
  · have none : front = [] := List.append_cancel_right (here.trans (List.nil_append _).symm)
    subst none
    exact .start
  · have here : broken.cursor.rest.drop (lineBreak broken.cursor.rest) = line ++ back := here
    have split := List.take_append_drop (lineBreak broken.cursor.rest) broken.cursor.rest
    have length := List.length_take_of_le (lineBreak_le broken.cursor.rest)
    rw [here] at split
    generalize broken.cursor.rest.take (lineBreak broken.cursor.rest) = r at split length
    have some : r ≠ [] := by
      rintro rfl
      exact breaks length.symm
    have exchanges : Exchanges (line ++ back) back := by
      refine ⟨delimits, ends.delimits, fun slash => ?_⟩
      rcases ends '/' slash with same | same <;> cases same
    have ahead' := ahead.exchange exchanges (absurd · some) (absurd · some) unpaired split.symm
      (absurd · some)
    have suffix : r <:+ front := suffix_of_append (split.symm ▸ ahead.suffix)
    have same := lineBreak_exchange (unpaired.suffix suffix) some
    rw [split] at same
    obtain ⟨c, r, rfl⟩ := List.exists_cons_of_ne_nil some
    have none : (c :: r).drop (lineBreak broken.cursor.rest) = [] :=
      List.drop_of_length_le (Nat.le_of_eq length)
    have passed : (broken.facing (c :: r ++ back)).breakLine (lineBreak broken.cursor.rest) = _ :=
      breakLine_facing split.symm (Nat.le_of_eq length.symm)
    have stepped : (broken.facing (c :: r ++ back)).step c (r ++ back) = _ :=
      step_newline inside (same.symm ▸ breaks)
    refine ahead'.step rfl (stepped.trans (congrArg Except.ok ?_))
    rw [← List.cons_append, same, passed, none, List.nil_append]
    unfold breakLine
    rw [if_pos outside]

end Scan

theorem Move.spreads_further (line bytes characters : Nat) :
    (Move.further line bytes characters).Spreads where
  offset _ _ less := Nat.add_lt_add_right less bytes
  lines := rfl
  column other a b less := by
    show (if _ then _ else _) < (if _ then _ else _)
    split
    · exact Nat.add_lt_add_right less _
    · exact less

/-- Behind the line is where the place in front of its end is moved to. -/
theorem Cursor.moved_line {cursor : Cursor} (ends : AtLineEnd back)
    (here : cursor.rest = line ++ back) :
    (cursor.facing back).Moved (.further cursor.line (byteLength line) line.length)
      (cursor.along line.length) := by
  have taken : cursor.rest.take line.length = line := by rw [here, List.take_left]
  refine ⟨rest_along_append here, ?_, fun n => Nat.add_right_comm .., rfl, ?_, ?_, ?_, ?_⟩
  · show cursor.offset + byteLength (cursor.rest.take _) = _
    rw [taken]
    rfl
  · show cursor.column + (cursor.rest.take _).length = _
    rw [taken]
    exact (if_pos rfl).symm
  · intro n
    refine (if_pos rfl).trans (.trans ?_ (congrArg (· + n) (if_pos rfl).symm))
    exact Nat.add_right_comm _ _ _
  · intro number above column
    exact if_neg (Nat.ne_of_gt above)
  · intro text hyphen
    have hyphen : back = '-' :: text := hyphen
    rcases ends '-' (by rw [hyphen]; rfl) with same | same <;> cases same

/-- A line of blanks and comments starts with a blank or a slash. -/
theorem Idle.head (idle : Idle n line) :
    ∀ c ∈ line.head?, c = ' ' ∨ c = '\t' ∨ c = '/' := by
  have isBlank {c : Char} (blank : isSpace c = true) : c = ' ' ∨ c = '\t' ∨ c = '/' := by
    have either : c = ' ' ∨ c = '\t' := by simpa [isSpace] using blank
    exact either.imp_right .inl
  have first {gap text : List Char} (blank : ∀ c ∈ gap, isSpace c = true) :
      ∀ c ∈ (gap ++ '/' :: text).head?, c = ' ' ∨ c = '\t' ∨ c = '/' := by
    cases gap with
    | nil =>
      rintro _ ⟨⟩
      exact .inr (.inr rfl)
    | cons c gap =>
      rintro _ ⟨⟩
      exact isBlank (blank c (.head _))
  cases idle with
  | blanks blank => exact fun c hc => isBlank (blank c (List.mem_of_mem_head? hc))
  | line blank => exact first blank
  | block blank => exact first blank

theorem Idle.delimits (idle : Idle n line) (ends : AtLineEnd back) : Delimits (line ++ back) := by
  cases line with
  | nil => exact ends.delimits
  | cons c line =>
    rintro _ ⟨⟩
    rcases idle.head c rfl with rfl | rfl | rfl <;> decide

/-- The breaks in front of the line and behind it stay two. -/
theorem Idle.unpaired (idle : Idle n line)
    (apart : front.getLast? = some '\r' → back.head? ≠ some '\n') :
    Unpaired front (line ++ back) back := by
  intro last
  cases line with
  | nil => exact Iff.rfl
  | cons c line =>
    refine iff_of_false (apart last) ?_
    rintro ⟨⟩
    rcases idle.head '\n' rfl with same | same | same <;> cases same

/-- The tokens of a source are those of the source in which a line of blanks and comments is empty,
moved behind the line. -/
theorem agree_tokenize_idle {before : List Token} {scan : Scan}
    (comes : Scan.Comes (front ++ (line ++ back)) before scan) (starts : scan.lineStart = true)
    (here : scan.cursor.rest = line ++ back) (idle : Idle n line) (ends : AtLineEnd back)
    (meets : n ≤ 1 ∨ spaces line = scan.levels.headD 0)
    (apart : front.getLast? = some '\r' → back.head? ≠ some '\n') :
    Agree (fun tokens tokens' => ∃ more, tokens = before ++ more ∧ tokens' = before ++ more.map
        (·.moved (.further scan.cursor.line (byteLength line) line.length)))
      (fun e e' => e' = e.moved (.further scan.cursor.line (byteLength line) line.length))
      (tokenize (String.ofList (front ++ back)))
      (tokenize (String.ofList (front ++ (line ++ back)))) := by
  have emptied := comes.emptied starts here (idle.delimits ends) ends (idle.unpaired apart)
  have empty : Idle 0 [] := .blanks (List.forall_mem_nil _)
  have passed := @Scan.run_idleLine _ _ _ (scan.facing back) empty ends starts rfl
    (.inl (Nat.zero_le _)) before.reverse
  have moved : Scan.Moved (.further scan.cursor.line (byteLength line) line.length)
      { scan.facing back with cursor := (scan.facing back).cursor.along 0, lineStart := false }
      { scan with cursor := scan.cursor.along line.length, lineStart := false } :=
    ⟨Cursor.moved_line ends here, rfl, rfl, rfl⟩
  rw [comes.tokenize_eq, emptied.tokenize_eq, Scan.run_idleLine idle ends starts here meets, passed]
  refine (moved.run _).mono ?_ fun _ _ same => same
  rintro _ _ ⟨more, rfl, rfl⟩
  rw [List.reverse_reverse]
  exact ⟨more, rfl, rfl⟩

end StylusToScss
