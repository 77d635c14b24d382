import StylusToScss.Proofs.Token.Failures

/-!
# Places lie on lines of the source

The scanner comes to another line only by passing a line feed or a carriage return. So a source has
at most one line more than it has such characters, and every place that the scanner tells of lies
on one of these lines, at a column from one on.

* `Scan.Step.counted`: no step leaves the lines of the source.
* `onLine_of_tokenize`, `onLine_of_tokenize_error`: the places of tokens, and that of a failure.
-/

namespace StylusToScss

variable {source text : List Char}

/-! ## Lines of a text -/

/-- The number of line feeds and carriage returns in a text. -/
def breakCharacters (text : List Char) : Nat := text.countP fun c => c == '\n' || c == '\r'

/-- A place on one of the lines that a source can have. -/
structure OnLine (source : List Char) (line column : Nat) : Prop where
  line_pos : 1 ≤ line
  line_le : line ≤ 1 + breakCharacters source
  column_pos : 1 ≤ column

theorem breakCharacters_take_drop (n : Nat) (text : List Char) :
    breakCharacters (text.take n) + breakCharacters (text.drop n) = breakCharacters text := by
  rw [breakCharacters, breakCharacters, ← List.countP_append, List.take_append_drop,
    breakCharacters]

theorem breakCharacters_cons {c : Char} (h : c = '\n' ∨ c = '\r') (rest : List Char) :
    breakCharacters (c :: rest) = breakCharacters rest + 1 :=
  List.countP_cons_of_pos (by simpa using h)

/-- A line break has a line feed or a carriage return. -/
theorem breakCharacters_lineBreak (breaks : lineBreak text ≠ 0) :
    breakCharacters (text.drop (lineBreak text)) < breakCharacters text := by
  unfold lineBreak at breaks ⊢
  split at breaks
  · rw [breakCharacters_cons (.inr rfl), breakCharacters_cons (.inl rfl)]
    exact Nat.lt_succ_of_lt (Nat.lt_succ_self _)
  · rw [breakCharacters_cons (.inr rfl)]
    exact Nat.lt_succ_self _
  · rw [breakCharacters_cons (.inl rfl)]
    exact Nat.lt_succ_self _
  · exact absurd rfl breaks

/-- Over the characters of a comment, the line rises by the line feeds among them at most. -/
theorem foldl_afterChar_bounds (text : List Char) (place : Nat × Nat) :
    place.1 ≤ (text.foldl Cursor.afterChar place).1 ∧
      (text.foldl Cursor.afterChar place).1 ≤ place.1 + breakCharacters text ∧
      (1 ≤ place.2 → 1 ≤ (text.foldl Cursor.afterChar place).2) := by
  induction text generalizing place with
  | nil => exact ⟨Nat.le_refl _, Nat.le_refl _, id⟩
  | cons c rest ih =>
    obtain ⟨least, most, column⟩ := ih (Cursor.afterChar place c)
    rw [List.foldl_cons]
    by_cases feed : c = '\n'
    · have next : Cursor.afterChar place c = (place.1 + 1, 1) := if_pos feed
      have counted := breakCharacters_cons (.inl feed) rest
      rw [next] at least most column ⊢
      exact ⟨by omega, by omega, fun _ => column (Nat.le_refl 1)⟩
    · have next : Cursor.afterChar place c = (place.1, place.2 + 1) := if_neg feed
      have counted : breakCharacters rest ≤ breakCharacters (c :: rest) :=
        (List.sublist_cons_self c rest).countP_le
      rw [next] at least most column ⊢
      exact ⟨least, by omega, fun _ => column (Nat.le_add_left 1 _)⟩

/-! ## Moving on -/

namespace Cursor

/-- The lines up to the cursor and those that can start behind it are lines of the source. -/
structure Counted (source : List Char) (cursor : Cursor) : Prop where
  line_pos : 1 ≤ cursor.line
  lines_le : cursor.line + breakCharacters cursor.rest ≤ 1 + breakCharacters source
  column_pos : 1 ≤ cursor.column

variable {cursor next : Cursor}

theorem counted_start (source : List Char) : (start source).Counted source :=
  ⟨Nat.le_refl 1, Nat.le_refl _, Nat.le_refl 1⟩

theorem Counted.onLine (h : cursor.Counted source) : OnLine source cursor.line cursor.column :=
  ⟨h.line_pos, Nat.le_trans (Nat.le_add_right _ _) h.lines_le, h.column_pos⟩

theorem Counted.along (h : cursor.Counted source) (n : Nat) : (cursor.along n).Counted source where
  line_pos := h.line_pos
  lines_le := by
    have := breakCharacters_take_drop n cursor.rest
    have := h.lines_le
    show cursor.line + breakCharacters (cursor.rest.drop n) ≤ _
    omega
  column_pos := Nat.le_trans h.column_pos (Nat.le_add_right _ _)

theorem Counted.across (h : cursor.Counted source) (n : Nat) :
    (cursor.across n).Counted source := by
  have ⟨least, most, column⟩ :=
    foldl_afterChar_bounds (cursor.rest.take n) (cursor.line, cursor.column)
  refine ⟨Nat.le_trans h.line_pos least, ?_, column h.column_pos⟩
  have := breakCharacters_take_drop n cursor.rest
  have := h.lines_le
  show ((cursor.rest.take n).foldl afterChar (cursor.line, cursor.column)).1 +
    breakCharacters (cursor.rest.drop n) ≤ _
  omega

theorem Counted.nextLine (h : cursor.Counted source) (breaks : lineBreak cursor.rest ≠ 0) :
    (cursor.nextLine (lineBreak cursor.rest)).Counted source where
  line_pos := Nat.le_add_left 1 _
  lines_le := by
    have := breakCharacters_lineBreak breaks
    have := h.lines_le
    show cursor.line + 1 + breakCharacters (cursor.rest.drop (lineBreak cursor.rest)) ≤ _
    omega
  column_pos := Nat.le_refl 1

theorem Counted.blockComment (h : cursor.Counted source) (closed : cursor.blockComment = .ok next) :
    next.Counted source := by
  unfold Cursor.blockComment at closed
  split at closed
  · cases closed
    exact h.across _
  · cases closed

theorem Counted.indentation (h : cursor.Counted source) (indented : cursor.indentation = .ok next) :
    next.Counted source := by
  have blank := h.along (spaces cursor.rest)
  unfold Cursor.indentation at indented
  simp only at indented
  split at indented
  · cases indented
    exact blank.along _
  · obtain ⟨behind, closed, rfl⟩ := map_eq_ok_iff.1 indented
    exact (blank.blockComment closed).along _
  · cases indented
    exact blank

end Cursor

/-! ## Steps -/

namespace Scan

variable {scan next : Scan} {before tokens : List Token} {fault : Located LexFault}

theorem Step.counted (step : Step scan tokens next) (h : scan.cursor.Counted source) :
    next.cursor.Counted source ∧
      ∀ token ∈ tokens, OnLine source token.span.line token.span.column := by
  cases step with
  | line _ indented opened =>
    have first := h.indentation indented
    cases startLine_ok opened with
    | empty => exact ⟨first, List.forall_mem_nil _⟩
    | indent => exact ⟨first, List.forall_mem_singleton.2 first.onLine⟩
    | dedents =>
      refine ⟨first, fun token ht => ?_⟩
      rw [List.eq_of_mem_replicate ht]
      exact first.onLine
  | newline _ breaks broken =>
    rcases breakLine_cases broken with ⟨-, rfl, rfl⟩ | ⟨-, rfl, rfl⟩
    · exact ⟨h.nextLine breaks, List.forall_mem_singleton.2 (h.along _).onLine⟩
    · exact ⟨h.nextLine breaks, List.forall_mem_nil _⟩
  | commentBlock _ _ closed => exact ⟨h.blockComment closed, List.forall_mem_nil _⟩
  | lexeme => exact ⟨h.along _, List.forall_mem_singleton.2 h.onLine⟩
  | space | commentLine => exact ⟨h.along _, List.forall_mem_nil _⟩

theorem Reached.counted (h : Reached source before scan) : scan.cursor.Counted source ∧
    ∀ token ∈ before, OnLine source token.span.line token.span.column := by
  induction h with
  | start => exact ⟨Cursor.counted_start source, List.forall_mem_nil _⟩
  | step _ _ step ih =>
    obtain ⟨here, cut⟩ := step.counted ih.1
    exact ⟨here, List.forall_mem_append.2 ⟨ih.2, cut⟩⟩

theorem StepFails.onLine (fails : StepFails scan fault) (h : scan.cursor.Counted source) :
    OnLine source fault.line fault.column := by
  cases fails with
  | comment => exact h.onLine
  | indentation => exact (h.along _).onLine
  | misaligned indented => exact (h.indentation indented).onLine
  | lexeme => exact (h.along _).onLine

end Scan

/-! ## Sources -/

variable {source : String} {tokens : List Token} {fault : Located LexFault}

/-- Every token of a source stands on one of its lines. -/
theorem onLine_of_tokenize (h : tokenize source = .ok tokens) :
    ∀ token ∈ tokens, OnLine source.toList token.span.line token.span.column := by
  obtain ⟨before, last, comes, -, rfl⟩ := Scan.Comes.of_tokenize h
  obtain ⟨here, cut⟩ := comes.reached.counted
  refine List.forall_mem_append.2 ⟨cut, List.forall_mem_append.2 ⟨fun token ht => ?_, ?_⟩⟩
  · rw [List.eq_of_mem_replicate ht]
    exact here.onLine
  · exact List.forall_mem_singleton.2 here.onLine

/-- Cutting a source fails on one of its lines. -/
theorem onLine_of_tokenize_error (h : tokenize source = .error fault) :
    OnLine source.toList fault.line fault.column := by
  obtain ⟨before, last, comes, fails⟩ := Scan.fails_of_tokenize h
  exact fails.onLine comes.reached.counted.1

end StylusToScss
