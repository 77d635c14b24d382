import StylusToScss.Proofs.Token.Steps

/-!
# How cutting fails

A run that fails does so in a step, at a scan that it comes to from the start of the source.
`StepFails` says what can be wrong there, so that a law about all failures has one case for each.

* `step_failed`: a failing step is one of these.
* `fails_of_tokenize`: a source that has no tokens fails in such a step.
-/

namespace StylusToScss

theorem Cursor.blockComment_failed {cursor : Cursor} {fault : Located LexFault}
    (h : cursor.blockComment = .error fault) : fault = cursor.fault .unterminatedComment := by
  unfold blockComment at h
  split at h
  · cases h
  · cases h
    rfl

/-- The only thing that can be wrong before the first lexeme of a line is a comment that is not
closed. -/
theorem Cursor.indentation_failed {cursor : Cursor} {fault : Located LexFault}
    (h : cursor.indentation = .error fault) :
    fault = cursor.behindSpaces.fault .unterminatedComment := by
  rcases comment_cases cursor.behindSpaces.rest with ⟨rest, here⟩ | ⟨rest, here⟩ | plain
  · rw [indentation_lineComment here] at h
    cases h
  · rw [indentation_blockComment here] at h
    cases closed : cursor.behindSpaces.blockComment with
    | ok next =>
      rw [closed] at h
      cases h
    | error e =>
      rw [closed] at h
      cases h
      exact blockComment_failed closed
  · rw [indentation_plain plain] at h
    cases h

namespace Scan

variable {scan : Scan} {c : Char} {rest : List Char} {fault : Located LexFault} {cut : List Token}
  {source : List Char}

/-- How a step fails: a block comment is not closed, here or behind the blanks that start a line; a
line is indented to a level that is not open; or no lexeme stands here. -/
inductive StepFails (scan : Scan) : Located LexFault → Prop
  | comment : StepFails scan (scan.cursor.fault .unterminatedComment)
  | indentation : StepFails scan (scan.cursor.behindSpaces.fault .unterminatedComment)
  | misaligned {first : Cursor} {width : Nat} (indented : scan.cursor.indentation = .ok first) :
      StepFails scan (first.fault (.misalignedIndentation width))
  | lexeme {c : Char} {rest : List Char} {e : Misread} (here : scan.cursor.rest = c :: rest)
      (solid : isSpace c = false ∧ lineBreak (c :: rest) = 0)
      (misread : lexeme scan.cursor.previous c rest = .error e) :
      StepFails scan ((scan.cursor.along e.after).fault e.cause)

theorem startLine_failed {first : Cursor} (h : scan.startLine first = .error fault) :
    ∃ width, fault = first.fault (.misalignedIndentation width) := by
  unfold startLine at h
  split at h
  · cases h
  · simp only at h
    split at h
    · cases h
    · cases h
      exact ⟨_, rfl⟩

theorem step_failed (here : scan.cursor.rest = c :: rest)
    (h : scan.step c rest = .error fault) : StepFails scan fault := by
  cases starts : scan.lineStart with
  | true =>
    rw [step_line starts] at h
    cases indented : scan.cursor.indentation with
    | error e =>
      rw [indented] at h
      cases h
      rw [Cursor.indentation_failed indented]
      exact .indentation
    | ok first =>
      rw [indented] at h
      obtain ⟨width, rfl⟩ := startLine_failed h
      exact .misaligned indented
  | false =>
    cases front_cases c rest with
    | space blank =>
      rw [step_space starts blank] at h
      cases h
    | newline breaks =>
      rw [step_newline starts breaks] at h
      cases h
    | lineComment =>
      rw [step_lineComment starts] at h
      cases h
    | blockComment =>
      rw [step_blockComment starts] at h
      cases closed : scan.cursor.blockComment with
      | ok next =>
        rw [closed] at h
        cases h
      | error e =>
        rw [closed] at h
        cases h
        rw [Cursor.blockComment_failed closed]
        exact .comment
    | lexeme solid unbroken plain =>
      rw [step_lexeme_eq starts solid unbroken plain] at h
      cases read : StylusToScss.lexeme scan.cursor.previous c rest with
      | ok item =>
        rw [read] at h
        cases h
      | error e =>
        rw [read] at h
        cases h
        exact .lexeme here ⟨solid, unbroken⟩ read

/-- A run that fails comes to a scan where a step fails. -/
theorem fails_of_run (h : scan.run cut = .error fault) (comes : Comes source cut.reverse scan) :
    ∃ before last, Comes source before last ∧ StepFails last fault := by
  fun_induction run scan cut with
  | case1 => cases h
  | case2 scan cut c rest here e failed =>
    cases h
    exact ⟨_, scan, comes, step_failed here failed⟩
  | case3 scan cut c rest here next cutHere stepped ih =>
    refine ih h ?_
    rw [List.reverse_append, List.reverse_reverse]
    exact .step comes here stepped

theorem fails_of_tokenize {source : String} (h : tokenize source = .error fault) :
    ∃ before last, Comes source.toList before last ∧ StepFails last fault :=
  fails_of_run h .start

end Scan
end StylusToScss
