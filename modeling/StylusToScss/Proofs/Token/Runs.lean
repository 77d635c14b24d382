import StylusToScss.Proofs.Except
import StylusToScss.Token.Stream

/-!
# Runs of the scanner

`Scan.run` steps from the start of a source to its end. Two relations say so without the tokens held
in reverse: `Runs` looks ahead, at the tokens that will be cut from a scan on, and `Reached` looks
back, at those that have been cut on the way to it. A property of all runs is proved by induction on
one of them, with one case for each kind of `Step`.

* `startLine_ok`, `breakLine_cases`: what the start and the end of a line can do.
* `runs_of_tokenize`: the tokens of a source are those of such a run.
* `Reached.place`: where a scan stands is behind the text that has been passed.
-/

namespace StylusToScss

/-! ## Places -/

namespace Cursor

/-- The place in the source behind the text that has been passed. -/
structure Place (source passed : List Char) (cursor : Cursor) : Prop where
  split : source = passed ++ cursor.rest
  offset : cursor.offset = byteLength passed
  previous : cursor.previous = passed.getLast?

variable {source passed : List Char} {cursor next : Cursor}

theorem Place.along (h : Place source passed cursor) (n : Nat) :
    Place source (passed ++ cursor.rest.take n) (cursor.along n) where
  split := by rw [rest_along, List.append_assoc, List.take_append_drop, ← h.split]
  offset := by rw [byteLength_append, ← h.offset]; rfl
  previous := by
    rw [List.getLast?_append, ← h.previous]
    rfl

theorem Place.across (h : Place source passed cursor) (n : Nat) :
    Place source (passed ++ cursor.rest.take n) (cursor.across n) :=
  ⟨(h.along n).split, (h.along n).offset, (h.along n).previous⟩

theorem Place.nextLine (h : Place source passed cursor) (n : Nat) :
    Place source (passed ++ cursor.rest.take n) (cursor.nextLine n) :=
  ⟨(h.along n).split, (h.along n).offset, (h.along n).previous⟩

theorem Place.blockComment (h : Place source passed cursor)
    (closed : cursor.blockComment = .ok next) : ∃ passed', Place source passed' next := by
  unfold Cursor.blockComment at closed
  split at closed
  · cases closed
    exact ⟨_, h.across _⟩
  · cases closed

theorem Place.indentation (h : Place source passed cursor)
    (indented : cursor.indentation = .ok next) : ∃ passed', Place source passed' next := by
  have blank := h.along (spaces cursor.rest)
  unfold Cursor.indentation at indented
  simp only at indented
  split at indented
  · cases indented
    exact ⟨_, blank.along _⟩
  · obtain ⟨behind, closed, rfl⟩ := map_eq_ok_iff.1 indented
    obtain ⟨_, place⟩ := blank.blockComment closed
    exact ⟨_, place.along _⟩
  · cases indented
    exact ⟨_, blank⟩

end Cursor

/-! ## The start and the end of a line -/

namespace Scan

/-- The tokens that start a line with an indentation: either one that opens a level, and the level
is its width, or some that close levels, and the innermost one that is left is its width. -/
theorem reindent_spec {levels opened : List Nat} {width : Nat} {kinds : List Kind}
    (h : reindent levels width = some (kinds, opened)) :
    levels.headD 0 < width ∧ kinds = [.indent] ∧ opened = width :: levels ∨
      ∃ closed ≤ levels.length, kinds = List.replicate closed .dedent ∧
        opened = levels.drop closed ∧ opened.headD 0 = width := by
  unfold reindent at h
  split at h
  · next wider =>
    cases h
    exact .inl ⟨wider, rfl, rfl⟩
  · simp only at h
    split at h
    · next meets =>
      cases h
      have kept := List.dropWhile_suffix (l := levels) (width < ·)
      exact .inr ⟨_, Nat.sub_le _ _, rfl, List.suffix_iff_eq_drop.1 kept, meets⟩
    · cases h

/-- What the start of a line does: nothing if there is no lexeme on it, or it opens one level, or
closes as many as are wider than the line. -/
inductive StartLine (scan : Scan) (first : Cursor) : List Token → Scan → Prop
  | empty (ended : first.rest = [] ∨ lineBreak first.rest ≠ 0) :
      StartLine scan first [] { scan with cursor := first, lineStart := false }
  | indent (wider : scan.levels.headD 0 < spaces scan.cursor.rest) :
      StartLine scan first [first.token .indent 0]
        { scan with
          cursor := first, levels := spaces scan.cursor.rest :: scan.levels, lineStart := false }
  | dedents {closed : Nat} (fewer : closed ≤ scan.levels.length)
      (meets : (scan.levels.drop closed).headD 0 = spaces scan.cursor.rest) :
      StartLine scan first (List.replicate closed (first.token .dedent 0))
        { scan with cursor := first, levels := scan.levels.drop closed, lineStart := false }

theorem startLine_ok {scan next : Scan} {first : Cursor} {tokens : List Token}
    (h : scan.startLine first = .ok (tokens, next)) : StartLine scan first tokens next := by
  unfold startLine at h
  split at h
  · next ended =>
    cases h
    exact .empty ended
  · simp only at h
    split at h
    · next kinds levels reindented =>
      cases h
      rcases reindent_spec reindented with ⟨wider, rfl, rfl⟩ | ⟨closed, fewer, rfl, rfl, meets⟩
      · exact .indent wider
      · rw [List.map_replicate]
        exact .dedents fewer meets
    · cases h

theorem breakLine_cases {scan next : Scan} {n : Nat} {tokens : List Token}
    (h : scan.breakLine n = (tokens, next)) :
    scan.parens = 0 ∧ tokens = [scan.cursor.breakToken n] ∧
        next = { scan with cursor := scan.cursor.nextLine n, lineStart := true } ∨
      scan.parens ≠ 0 ∧ tokens = [] ∧ next = { scan with cursor := scan.cursor.nextLine n } := by
  unfold breakLine at h
  split at h
  · next outside =>
    cases h
    exact .inl ⟨outside, rfl, rfl⟩
  · next enclosed =>
    cases h
    exact .inr ⟨enclosed, rfl, rfl⟩

/-- A step cuts no token that ends behind the scan it leads to. -/
theorem Step.spans_le {scan next : Scan} {tokens : List Token} (step : Step scan tokens next) :
    ∀ token ∈ tokens,
      token.span.start ≤ next.cursor.offset ∧ token.span.stop ≤ next.cursor.offset := by
  cases step with
  | line _ _ opened =>
    have here (first : Cursor) (kind : Kind) : (first.token kind 0).span.start ≤ first.offset ∧
        (first.token kind 0).span.stop ≤ first.offset := ⟨Nat.le_refl _, Nat.le_refl _⟩
    cases startLine_ok opened with
    | empty => exact List.forall_mem_nil _
    | indent => simpa using here _ _
    | dedents =>
      intro token ht
      rw [List.eq_of_mem_replicate ht]
      exact here _ _
  | newline _ _ broken =>
    rcases breakLine_cases broken with ⟨-, rfl, rfl⟩ | ⟨-, rfl, rfl⟩
    · intro token ht
      rw [List.mem_singleton.1 ht]
      exact ⟨Nat.sub_le _ _, Nat.le_refl _⟩
    · exact List.forall_mem_nil _
  | lexeme =>
    intro token ht
    rw [List.mem_singleton.1 ht]
    exact ⟨Nat.le_add_right _ _, Nat.le_refl _⟩
  | space | commentLine | commentBlock => exact List.forall_mem_nil _

/-! ## Runs -/

/-- Stepping from a scan to the end of the source cuts these tokens. -/
inductive Runs : Scan → List Token → Prop
  | done {scan : Scan} (ended : scan.cursor.rest = []) : Runs scan scan.closing
  | step {scan next : Scan} {tokens more : List Token} (step : Step scan tokens next)
      (runs : Runs next more) : Runs scan (tokens ++ more)

/-- The scan is come to from the start of the source, and these tokens have been cut before it. -/
inductive Reached (source : List Char) : List Token → Scan → Prop
  | start : Reached source [] (.start source)
  | step {before tokens : List Token} {scan next : Scan} (reached : Reached source before scan)
      (left : scan.cursor.rest ≠ []) (step : Step scan tokens next) :
      Reached source (before ++ tokens) next

/-- A successful run cuts the tokens that `Runs` says, behind those already cut. -/
theorem run_ok {scan : Scan} {cut tokens : List Token} (h : scan.run cut = .ok tokens) :
    ∃ more, tokens = cut.reverse ++ more ∧ Runs scan more := by
  fun_induction run scan cut with
  | case1 scan cut ended =>
    cases h
    exact ⟨_, rfl, .done ended⟩
  | case2 => cases h
  | case3 scan cut c rest here next cutHere stepped ih =>
    obtain ⟨more, rfl, runs⟩ := ih h
    exact ⟨_, by simp, .step (step_ok here stepped) runs⟩

theorem runs_of_tokenize {source : String} {tokens : List Token}
    (h : tokenize source = .ok tokens) : Runs (.start source.toList) tokens := by
  obtain ⟨more, rfl, runs⟩ := run_ok h
  exact runs

/-! ## What holds along a run -/

theorem Step.place {source passed : List Char} {scan next : Scan} {tokens : List Token}
    (step : Step scan tokens next) (h : scan.cursor.Place source passed) :
    ∃ passed', next.cursor.Place source passed' := by
  cases step with
  | line _ indented opened =>
    rw [(startLine_cursor opened).1]
    exact h.indentation indented
  | newline _ _ broken =>
    rcases breakLine_cases broken with ⟨-, -, rfl⟩ | ⟨-, -, rfl⟩
    · exact ⟨_, h.nextLine _⟩
    · exact ⟨_, h.nextLine _⟩
  | commentBlock _ _ closed => exact h.blockComment closed
  | space | commentLine | lexeme => exact ⟨_, h.along _⟩

/-- A scan that is reached stands behind the text that has been passed. -/
theorem Reached.place {source : List Char} {before : List Token} {scan : Scan}
    (h : Reached source before scan) : ∃ passed, scan.cursor.Place source passed := by
  induction h with
  | start => exact ⟨[], rfl, rfl, rfl⟩
  | step _ _ step ih =>
    obtain ⟨_, place⟩ := ih
    exact step.place place

end Scan
end StylusToScss
