import StylusToScss.Proofs.Token.Levels
import StylusToScss.Statement.Line

/-!
# Lines of tokens

Each logical line of a source starts on a later line of the source than the one before it
(`rising_of_tokenize`). A scan never goes back, and the token that ends a logical line is cut where
the scan goes on to the next line.
-/

namespace StylusToScss

/-- What stands behind the end of a logical line is on a later line than its tokens. -/
def Rising : List Token → Prop
  | [] => True
  | token :: rest =>
    (token.kind.endsLine = false → ∀ later ∈ afterLine rest, later.kind.endsLine = false →
      token.span.line < later.span.line) ∧ Rising rest

variable {tokens rest : List Token} {token : Token}

theorem afterLine_cons (content : token.kind.endsLine = false) :
    afterLine (token :: rest) = afterLine rest :=
  List.dropWhile_cons_of_pos (congrArg (!·) content)

theorem Rising.suffix (h : Rising tokens) (suffix : rest <:+ tokens) : Rising rest := by
  induction tokens with
  | nil => rwa [List.suffix_nil.1 suffix]
  | cons token tokens ih =>
    rcases List.suffix_cons_iff.1 suffix with rfl | suffix
    · exact h
    · exact ih h.2 suffix

/-- Tokens of which none stands on a logical line. -/
theorem rising_append_of_endsLine {marks : List Token}
    (h : ∀ mark ∈ marks, mark.kind.endsLine = true) (rising : Rising tokens) :
    Rising (marks ++ tokens) := by
  induction marks with
  | nil => exact rising
  | cons mark marks ih =>
    refine ⟨fun content => ?_, ih fun m hm => h m (.tail _ hm)⟩
    rw [h mark (.head _)] at content
    cases content

namespace Cursor

variable {cursor next : Cursor}

theorem line_le_of_foldl (text : List Char) (place : Nat × Nat) :
    place.1 ≤ (text.foldl afterChar place).1 := by
  induction text generalizing place with
  | nil => exact Nat.le_refl _
  | cons c text ih =>
    refine Nat.le_trans ?_ (ih _)
    unfold afterChar
    split
    · exact Nat.le_succ _
    · exact Nat.le_refl _

theorem line_le_of_blockComment (h : cursor.blockComment = .ok next) : cursor.line ≤ next.line := by
  unfold blockComment at h
  split at h
  · cases h
    exact line_le_of_foldl _ (cursor.line, cursor.column)
  · cases h

theorem line_le_of_indentation (h : cursor.indentation = .ok next) : cursor.line ≤ next.line := by
  unfold indentation at h
  simp only at h
  split at h
  · cases h
    exact Nat.le_refl _
  · obtain ⟨behind, closed, rfl⟩ := map_eq_ok_iff.1 h
    have further := line_le_of_blockComment closed
    exact further
  · cases h
    exact Nat.le_refl _

end Cursor

namespace Scan

variable {scan : Scan}

/-- A step does not go back, and on to a later line if a logical line starts behind it. -/
theorem Step.line_le {next : Scan} (step : Step scan tokens next) :
    scan.cursor.line + next.lineStart.toNat ≤ next.cursor.line ∧
      ∀ token ∈ tokens, token.span.line + next.lineStart.toNat ≤ next.cursor.line := by
  cases step with
  | @line first _ _ _ indented opened =>
    have further := Cursor.line_le_of_indentation indented
    rw [(startLine_cursor opened).1, (startLine_cursor opened).2]
    refine ⟨further, fun token ht => ?_⟩
    cases startLine_ok opened with
    | empty => cases ht
    | indent =>
      cases List.mem_singleton.1 ht
      exact Nat.le_refl _
    | dedents =>
      cases List.eq_of_mem_replicate ht
      exact Nat.le_refl _
  | newline inside _ broken =>
    rcases breakLine_cases broken with ⟨-, rfl, rfl⟩ | ⟨-, rfl, rfl⟩
    · refine ⟨Nat.le_refl _, fun token ht => ?_⟩
      cases List.mem_singleton.1 ht
      exact Nat.le_refl _
    · simp only [inside, Bool.toNat_false, Nat.add_zero]
      exact ⟨Nat.le_succ _, List.forall_mem_nil _⟩
  | commentBlock _ inside closed =>
    simp only [inside, Bool.toNat_false, Nat.add_zero]
    exact ⟨Cursor.line_le_of_blockComment closed, List.forall_mem_nil _⟩
  | space _ inside | commentLine _ inside =>
    simp only [inside, Bool.toNat_false, Nat.add_zero]
    exact ⟨Nat.le_refl _, List.forall_mem_nil _⟩
  | lexeme _ inside =>
    simp only [inside, Bool.toNat_false, Nat.add_zero]
    refine ⟨Nat.le_refl _, fun token ht => ?_⟩
    cases List.mem_singleton.1 ht
    exact Nat.le_refl _

/-- What will be cut from a scan on: nothing stands on an earlier line, each logical line starts on
a later line than the one before it, and so does the next one, if the scan stands within one. -/
structure Ahead (scan : Scan) (tokens : List Token) : Prop where
  notEarlier : ∀ token ∈ tokens, scan.cursor.line ≤ token.span.line
  rising : Rising tokens
  inside : scan.lineStart = false → ∀ later ∈ afterLine tokens, later.kind.endsLine = false →
    scan.cursor.line < later.span.line

/-- A step inside a line that cuts no token. -/
theorem Ahead.skip {cursor : Cursor} (h : Ahead { scan with cursor := cursor } tokens)
    (further : scan.cursor.line ≤ cursor.line) : Ahead scan tokens where
  notEarlier token ht := Nat.le_trans further (h.notEarlier token ht)
  rising := h.rising
  inside inside later hl content := Nat.lt_of_le_of_lt further (h.inside inside later hl content)

theorem Step.ahead {next : Scan} {cut : List Token} (step : Step scan cut next)
    (h : Ahead next tokens) : Ahead scan (cut ++ tokens) := by
  cases step with
  | @line first _ _ starts indented opened =>
    have further := Cursor.line_le_of_indentation indented
    have marks : ∀ token ∈ cut, token.kind.endsLine = true ∧ first.line ≤ token.span.line := by
      cases startLine_ok opened with
      | empty => exact nofun
      | indent =>
        intro token ht
        cases List.mem_singleton.1 ht
        exact ⟨rfl, Nat.le_refl _⟩
      | dedents =>
        intro token ht
        cases List.eq_of_mem_replicate ht
        exact ⟨rfl, Nat.le_refl _⟩
    refine ⟨?_, rising_append_of_endsLine (fun token ht => (marks token ht).1) h.rising, ?_⟩
    · intro token ht
      refine Nat.le_trans further ?_
      rcases List.mem_append.1 ht with ht | ht
      · exact (marks token ht).2
      · rw [← (startLine_cursor opened).1]
        exact h.notEarlier token ht
    · intro inside
      exact absurd (starts.symm.trans inside) nofun
  | newline inside _ broken =>
    rcases breakLine_cases broken with ⟨-, rfl, rfl⟩ | ⟨-, rfl, rfl⟩
    · have later : ∀ token ∈ tokens, scan.cursor.line < token.span.line := h.notEarlier
      refine ⟨?_, ⟨nofun, h.rising⟩, ?_⟩
      · rintro token (_ | ⟨_, ht⟩)
        · exact Nat.le_refl _
        · exact Nat.le_of_lt (later token ht)
      · rintro - token (_ | ⟨_, ht⟩) content
        · cases content
        · exact later token ht
    · exact h.skip (Nat.le_succ _)
  | space | commentLine => exact h.skip (Nat.le_refl _)
  | commentBlock _ _ closed => exact h.skip (Cursor.line_le_of_blockComment closed)
  | lexeme _ inside solid read =>
    have content := endsLine_lexeme read solid.2
    refine ⟨?_, ⟨fun _ => h.inside inside, h.rising⟩, ?_⟩
    · rintro token (_ | ⟨_, ht⟩)
      · exact Nat.le_refl _
      · exact h.notEarlier token ht
    · intro _ later hl
      refine h.inside inside later ?_
      rwa [List.singleton_append, afterLine_cons content] at hl

theorem ahead_closing (scan : Scan) : Ahead scan scan.closing := by
  have marks : ∀ token ∈ scan.closing,
      token.kind.endsLine = true ∧ scan.cursor.line ≤ token.span.line := by
    intro token ht
    rcases List.mem_append.1 ht with ht | ht
    · cases List.eq_of_mem_replicate ht
      exact ⟨rfl, Nat.le_refl _⟩
    · cases List.mem_singleton.1 ht
      exact ⟨rfl, Nat.le_refl _⟩
  refine ⟨fun token ht => (marks token ht).2, ?_, ?_⟩
  · rw [← List.append_nil scan.closing]
    exact rising_append_of_endsLine (fun token ht => (marks token ht).1) trivial
  · intro _ later hl content
    have ends := (marks later ((List.dropWhile_sublist _).subset hl)).1
    rw [ends] at content
    cases content

theorem Runs.ahead (h : Runs scan tokens) : Ahead scan tokens := by
  induction h with
  | done => exact ahead_closing _
  | step step _ ih => exact step.ahead ih

end Scan

theorem rising_of_tokenize {source : String} (h : tokenize source = .ok tokens) : Rising tokens :=
  (Scan.runs_of_tokenize h).ahead.rising

end StylusToScss
