import StylusToScss.Proofs.Token.Runs

/-!
# The steps of the scanner, case by case

What a step does shows in the first characters of the text that is left. `Scan.Front` names the five
cases, and for each of them an equation says what the step gives, whether it succeeds or not. To
compare two runs, it is enough to compare these cases. `Scan.Comes` is the place that the scanner
itself comes to from the start of a source; of the text behind it, nothing has been decided yet
(`Comes.run_eq`).
-/

namespace StylusToScss

/-- A comment starts here. -/
def StartsComment (text : List Char) : Prop :=
  ∃ rest, text = '/' :: '/' :: rest ∨ text = '/' :: '*' :: rest

/-- A text starts with a line comment, with a block comment, or with none. -/
theorem comment_cases (text : List Char) : (∃ rest, text = '/' :: '/' :: rest) ∨
    (∃ rest, text = '/' :: '*' :: rest) ∨ ¬ StartsComment text := by
  by_cases line : ∃ rest, text = '/' :: '/' :: rest
  · exact .inl line
  · by_cases block : ∃ rest, text = '/' :: '*' :: rest
    · exact .inr (.inl block)
    · refine .inr (.inr ?_)
      rintro ⟨rest, here | here⟩
      · exact line ⟨rest, here⟩
      · exact block ⟨rest, here⟩

theorem startsComment_cons_iff {c : Char} {rest : List Char} : StartsComment (c :: rest) ↔
    c = '/' ∧ (rest.head? = some '/' ∨ rest.head? = some '*') := by
  simp only [List.head?_eq_some_iff, StartsComment, List.cons.injEq, ← and_or_left, exists_and_left,
    exists_or]

/-! ## Indentation -/

namespace Cursor

variable {cursor : Cursor} {rest : List Char}

/-- The place behind the blanks that stand here. -/
def behindSpaces (cursor : Cursor) : Cursor := cursor.along (spaces cursor.rest)

theorem indentation_lineComment (here : cursor.behindSpaces.rest = '/' :: '/' :: rest) :
    cursor.indentation =
      .ok (cursor.behindSpaces.along (lineComment cursor.behindSpaces.rest)) := by
  unfold behindSpaces at *
  unfold indentation
  simp only [here]

theorem indentation_blockComment (here : cursor.behindSpaces.rest = '/' :: '*' :: rest) :
    cursor.indentation = cursor.behindSpaces.blockComment.map behindSpaces := by
  unfold behindSpaces at *
  unfold indentation
  simp only [here]

theorem indentation_plain (plain : ¬ StartsComment cursor.behindSpaces.rest) :
    cursor.indentation = .ok cursor.behindSpaces := by
  unfold behindSpaces at *
  unfold indentation
  simp only
  split
  · next here => exact absurd ⟨_, .inl here⟩ plain
  · next here => exact absurd ⟨_, .inr here⟩ plain
  · rfl

end Cursor

/-! ## Steps -/

namespace Scan

variable {scan next : Scan} {c : Char} {rest : List Char} {tokens cut : List Token}

/-- What stands at the front of a text inside a line. -/
inductive Front : Char → List Char → Prop
  | space {c : Char} {rest : List Char} (blank : isSpace c = true) : Front c rest
  | newline {c : Char} {rest : List Char} (breaks : lineBreak (c :: rest) ≠ 0) : Front c rest
  | lineComment {rest : List Char} : Front '/' ('/' :: rest)
  | blockComment {rest : List Char} : Front '/' ('*' :: rest)
  | lexeme {c : Char} {rest : List Char} (solid : isSpace c = false)
      (unbroken : lineBreak (c :: rest) = 0) (plain : ¬ StartsComment (c :: rest)) : Front c rest

theorem front_cases (c : Char) (rest : List Char) : Front c rest := by
  cases blank : isSpace c with
  | true => exact .space blank
  | false =>
    by_cases unbroken : lineBreak (c :: rest) = 0
    · rcases comment_cases (c :: rest) with ⟨_, here⟩ | ⟨_, here⟩ | plain
      · cases here
        exact .lineComment
      · cases here
        exact .blockComment
      · exact .lexeme blank unbroken plain
    · exact .newline unbroken

/-- A line break is no blank. -/
theorem isSpace_of_lineBreak (breaks : lineBreak (c :: rest) ≠ 0) : isSpace c = false := by
  unfold lineBreak at breaks
  split at breaks
  · next here => cases here; rfl
  · next here => cases here; rfl
  · next here => cases here; rfl
  · exact absurd rfl breaks

theorem step_line (starts : scan.lineStart = true) :
    scan.step c rest = scan.cursor.indentation >>= scan.startLine := by
  unfold step
  rw [if_pos starts]
  cases scan.cursor.indentation <;> rfl

section
variable (inside : scan.lineStart = false)
include inside

theorem step_space (blank : isSpace c = true) :
    scan.step c rest = .ok ([], { scan with cursor := scan.cursor.along 1 }) := by
  unfold step
  rw [inside, if_neg Bool.false_ne_true, if_pos blank]

theorem step_newline (breaks : lineBreak (c :: rest) ≠ 0) :
    scan.step c rest = .ok (scan.breakLine (lineBreak (c :: rest))) := by
  unfold step
  rw [inside, if_neg Bool.false_ne_true, if_neg (by simp [isSpace_of_lineBreak breaks]),
    if_pos breaks]

theorem step_lineComment : scan.step '/' ('/' :: rest) = .ok ([],
    { scan with cursor := scan.cursor.along (lineComment ('/' :: '/' :: rest)) }) := by
  unfold step
  rw [inside]
  rfl

theorem step_blockComment : scan.step '/' ('*' :: rest) =
    scan.cursor.blockComment.map fun next => ([], { scan with cursor := next }) := by
  unfold step
  rw [inside]
  cases scan.cursor.blockComment <;> rfl

/-- The scan behind a lexeme. -/
theorem step_lexeme_eq (solid : isSpace c = false) (unbroken : lineBreak (c :: rest) = 0)
    (plain : ¬ StartsComment (c :: rest)) :
    scan.step c rest = match lexeme scan.cursor.previous c rest with
      | .error e => .error ((scan.cursor.along e.after).fault e.cause)
      | .ok item => .ok ([scan.cursor.token item.kind item.spelling.length],
        { scan with
          cursor := scan.cursor.along item.spelling.length
          parens := parensAfter scan.parens item.kind }) := by
  rw [startsComment_cons_iff, and_or_left, not_or] at plain
  unfold step
  refine (if_neg (by simp [inside])).trans ?_
  refine (if_neg (by simp [solid])).trans ((if_neg (by simp [unbroken])).trans ?_)
  exact (if_neg plain.1).trans (if_neg plain.2)

end

/-! ## Runs -/

theorem run_done (cut : List Token) (ended : scan.cursor.rest = []) :
    scan.run cut = .ok (cut.reverse ++ scan.closing) := by
  rw [run]
  split
  · rfl
  · next here => rw [ended] at here; cases here

theorem run_step (cut : List Token) (here : scan.cursor.rest = c :: rest)
    (step : scan.step c rest = .ok (tokens, next)) :
    scan.run cut = next.run (tokens.reverse ++ cut) := by
  rw [run]
  split
  · next none => rw [here] at none; cases none
  · next c' rest' here' =>
    rw [here] at here'
    cases here'
    split
    · next failed => rw [step] at failed; cases failed
    · next stepped =>
      rw [step] at stepped
      cases stepped
      rfl

theorem run_failed {fault : Located LexFault} (cut : List Token)
    (here : scan.cursor.rest = c :: rest) (step : scan.step c rest = .error fault) :
    scan.run cut = .error fault := by
  rw [run]
  split
  · next none => rw [here] at none; cases none
  · next c' rest' here' =>
    rw [here] at here'
    cases here'
    split
    · next failed =>
      rw [step] at failed
      cases failed
      rfl
    · next stepped => rw [step] at stepped; cases stepped

/-- The scanner comes to the scan from the start of the source, and has cut these tokens before. -/
inductive Comes (source : List Char) : List Token → Scan → Prop
  | start : Comes source [] (.start source)
  | step {before tokens : List Token} {scan next : Scan} {c : Char} {rest : List Char}
      (comes : Comes source before scan) (here : scan.cursor.rest = c :: rest)
      (step : scan.step c rest = .ok (tokens, next)) : Comes source (before ++ tokens) next

namespace Comes

variable {source : List Char} {before first : List Token} {token : Token}

theorem reached (h : Comes source before scan) : Reached source before scan := by
  induction h with
  | start => exact .start
  | step _ here step ih => exact .step ih (by simp [here]) (step_ok here step)

/-- The run over the source goes on from a scan that it comes to. -/
theorem run_eq (h : Comes source before scan) :
    (Scan.start source).run [] = scan.run before.reverse := by
  induction h with
  | start => rfl
  | step _ here step ih => rw [ih, run_step _ here step, List.reverse_append]

theorem tokenize_eq (h : Comes source before scan) :
    tokenize (String.ofList source) = scan.run before.reverse := by
  rw [tokenize, String.toList_ofList, h.run_eq]

/-- A successful run comes to a scan with nothing behind it. -/
theorem of_run (h : scan.run cut = .ok tokens) (comes : Comes source cut.reverse scan) :
    ∃ before last, Comes source before last ∧ last.cursor.rest = [] ∧
      tokens = before ++ last.closing := by
  fun_induction run scan cut with
  | case1 scan cut ended =>
    cases h
    exact ⟨_, _, comes, ended, rfl⟩
  | case2 => cases h
  | case3 scan cut c rest here next cutHere stepped ih =>
    refine ih h ?_
    rw [List.reverse_append, List.reverse_reverse]
    exact .step comes here stepped

theorem of_tokenize {source : String} (h : tokenize source = .ok tokens) :
    ∃ before last, Comes source.toList before last ∧ last.cursor.rest = [] ∧
      tokens = before ++ last.closing :=
  of_run h .start

/-- The tokens of a source are those before a scan with nothing behind it, the levels that are
closed there, and the end of the input. -/
theorem of_tokenize_last {source : String} {body : List Token} {last : Token}
    (h : tokenize source = .ok (body ++ [last])) :
    ∃ before scan, Comes source.toList before scan ∧ scan.cursor.rest = [] ∧
      body = before ++ List.replicate scan.levels.length (scan.cursor.token .dedent 0) ∧
      last = scan.cursor.token .endOfInput 0 := by
  obtain ⟨before, scan, comes, ended, split⟩ := of_tokenize h
  rw [closing, ← List.append_assoc] at split
  obtain ⟨same, same'⟩ := List.append_inj' split rfl
  exact ⟨before, scan, comes, ended, same, List.singleton_inj.1 same'⟩

/-- Every token before a scan that the scanner comes to has been cut by a step on the way. -/
theorem cuts {rest : List Token} (h : Comes source before scan)
    (split : before = first ++ token :: rest) :
    ∃ earlier ahead behind from_ next c text, first = earlier ++ ahead ∧
      Comes source earlier from_ ∧ from_.cursor.rest = c :: text ∧
      from_.step c text = .ok (ahead ++ token :: behind, next) := by
  induction h generalizing rest with
  | start => simp at split
  | @step before tokens scan next c text comes here step ih =>
    rcases List.append_eq_append_iff.1 split with ⟨ahead, rfl, cut⟩ | ⟨inside, rfl, cut⟩
    · subst cut
      exact ⟨before, ahead, rest, scan, next, c, text, rfl, comes, here, step⟩
    · cases inside with
      | nil =>
        simp only [List.nil_append] at cut
        subst cut
        exact ⟨first, [], rest, scan, next, c, text, by simp, by simpa using comes, here, step⟩
      | cons t inside =>
        cases cut
        exact ih rfl

end Comes
end Scan
end StylusToScss
