import StylusToScss.Proofs.Slice
import StylusToScss.Proofs.Token.Levels
import StylusToScss.Proofs.Token.Moved

/-!
# Texts that stay as they are where tokens are moved

The tokens of a line may be cut out of a source together, with all that stands between them. Where
a second source holds the same text from each scan of a line to the next one, it holds the same text
there (`Scan.Copies.step`).
-/

namespace StylusToScss

variable {source source' : String} {move : Move} {tokens more piece : List Token}

/-- The same text stands between two offsets of a source and where they are moved to in another. -/
def SameSlice (source source' : String) (move : Move) (start stop : Nat) : Prop :=
  ∃ text, slice? source start stop = some text ∧
    slice? source' (move.offset start) (move.offset stop) = some text

theorem SameSlice.trans {a b c : Nat} (h : SameSlice source source' move a b)
    (h' : SameSlice source source' move b c) : SameSlice source source' move a c := by
  obtain ⟨text, first, moved⟩ := h
  obtain ⟨text', second, moved'⟩ := h'
  exact ⟨text ++ text', slice?_append first second, slice?_append moved moved'⟩

/-! ## Places -/

namespace Cursor

variable {cursor next : Cursor} {text passed passed' taken : List Char}

/-- Of two places in a text, the second one stands behind what is taken. -/
theorem Place.offset_of_rest (h : cursor.Place text passed) (h' : next.Place text passed')
    (taken_eq : cursor.rest = taken ++ next.rest) :
    next.offset = cursor.offset + byteLength taken := by
  have split := h'.split
  rw [h.split, taken_eq, ← List.append_assoc] at split
  rw [h'.offset, ← List.append_cancel_right split, byteLength_append, h.offset]

theorem Place.slice? (h : cursor.Place source.toList passed)
    (h' : next.Place source.toList passed') (taken_eq : cursor.rest = taken ++ next.rest) :
    slice? source cursor.offset next.offset = some (String.ofList taken) := by
  rw [h.offset_of_rest h' taken_eq, h.offset]
  refine slice?_eq_some (c := next.rest) ?_
  rw [h.split, taken_eq, List.append_assoc]

end Cursor

/-! ## Tokens -/

/-- The tokens stand within one logical line. -/
def InLine (piece : List Token) : Prop := ∀ token ∈ piece, token.kind.endsLine = false

/-- No part of a line reaches over tokens that end one. -/
theorem InLine.isInfix {marks : List Token} (h : InLine piece)
    (ends : ∀ mark ∈ marks, mark.kind.endsLine = true) (part : piece <:+: marks ++ more) :
    piece <:+: more := by
  induction marks with
  | nil => exact part
  | cons mark marks ih =>
    obtain ⟨first, ends⟩ := List.forall_mem_cons.1 ends
    rcases List.infix_cons_iff.1 part with front | part
    · cases piece with
      | nil => exact List.nil_infix
      | cons token piece =>
        obtain ⟨rfl, -⟩ := List.cons_prefix_cons.1 front
        rw [h token (.head _)] at first
        cases first
    · exact ih ends part

theorem InLine.isPrefix {mark : Token} (h : InLine piece) (ends : mark.kind.endsLine = true)
    (front : piece <+: mark :: more) : piece = [] := by
  cases piece with
  | nil => rfl
  | cons token piece =>
    obtain ⟨rfl, -⟩ := List.cons_prefix_cons.1 front
    rw [h token (.head _)] at ends
    cases ends

/-- The second source holds the same text over every part of a line. -/
def SameTexts (source source' : String) (move : Move) (tokens : List Token) : Prop :=
  ∀ piece, piece <:+: tokens → InLine piece → ∀ first ∈ piece.head?, ∀ last ∈ piece.getLast?,
    SameSlice source source' move first.span.start last.span.stop

namespace Scan

variable {scan next : Scan}

/-- The second source holds the same text over all parts of lines that will be cut from the scan on,
and also from the scan to the end of such a part if the scan stands in the same line. -/
structure Copies (source source' : String) (move : Move) (scan : Scan) (tokens : List Token) :
    Prop where
  ahead : scan.lineStart = false → ∀ piece, piece <+: tokens → InLine piece →
    ∀ last ∈ piece.getLast?, SameSlice source source' move scan.cursor.offset last.span.stop
  within : SameTexts source source' move tokens

namespace Copies

/-- Tokens that end lines are no part of one. -/
theorem marks {marks : List Token} (h : next.Copies source source' move more)
    (ends : ∀ mark ∈ marks, mark.kind.endsLine = true)
    (apart : scan.lineStart = true ∨ marks ≠ []) :
    scan.Copies source source' move (marks ++ more) where
  ahead inside piece front inLine last hl := by
    cases marks with
    | nil =>
      rcases apart with starts | some
      · exact absurd (inside.symm.trans starts) nofun
      · exact absurd rfl some
    | cons mark marks =>
      rw [inLine.isPrefix (ends mark (.head _)) front] at hl
      cases hl
  within piece part inLine := h.within piece (inLine.isInfix ends part) inLine

/-- A step inside a line that cuts no token. -/
theorem skip (h : next.Copies source source' move tokens) (inside : next.lineStart = false)
    (same : SameSlice source source' move scan.cursor.offset next.cursor.offset) :
    scan.Copies source source' move tokens where
  ahead _ piece front inLine last hl := same.trans (h.ahead inside piece front inLine last hl)
  within := h.within

/-- A step inside a line that cuts one token, over all that it takes. -/
theorem token {token : Token} (h : next.Copies source source' move more)
    (inside : next.lineStart = false) (starts : token.span.start = scan.cursor.offset)
    (stops : token.span.stop = next.cursor.offset)
    (same : SameSlice source source' move scan.cursor.offset next.cursor.offset) :
    scan.Copies source source' move (token :: more) := by
  have ahead : ∀ piece, piece <+: token :: more → InLine piece → ∀ last ∈ piece.getLast?,
      SameSlice source source' move scan.cursor.offset last.span.stop := by
    intro piece front inLine last hl
    cases piece with
    | nil => cases hl
    | cons first piece =>
      obtain ⟨rfl, behind⟩ := List.cons_prefix_cons.1 front
      cases piece with
      | nil =>
        cases hl
        show SameSlice source source' move scan.cursor.offset first.span.stop
        rw [stops]
        exact same
      | cons second piece =>
        rw [List.getLast?_cons_cons] at hl
        exact same.trans (h.ahead inside _ behind (fun t ht => inLine t (.tail _ ht)) last hl)
  refine ⟨fun _ => ahead, fun piece part inLine first hf last hl => ?_⟩
  rcases List.infix_cons_iff.1 part with front | part
  · cases piece with
    | nil => cases hf
    | cons head piece =>
      cases hf
      obtain ⟨rfl, -⟩ := List.cons_prefix_cons.1 front
      rw [starts]
      exact ahead _ front inLine last hl
  · exact h.within piece part inLine first hf last hl

/-- A step over a text that the second source holds too. -/
theorem step (h : next.Copies source source' move more) (step : Step scan tokens next)
    (same : scan.lineStart = false →
      SameSlice source source' move scan.cursor.offset next.cursor.offset) :
    scan.Copies source source' move (tokens ++ more) := by
  cases step with
  | line starts _ opened =>
    refine h.marks (fun mark hm => ?_) (.inl starts)
    cases startLine_ok opened with
    | empty => cases hm
    | indent =>
      cases List.mem_singleton.1 hm
      rfl
    | dedents =>
      cases List.eq_of_mem_replicate hm
      rfl
  | newline inside _ broken =>
    rcases breakLine_cases broken with ⟨-, rfl, rfl⟩ | ⟨-, rfl, rfl⟩
    · refine h.marks (fun mark hm => ?_) (.inr (List.cons_ne_nil _ _))
      cases List.mem_singleton.1 hm
      rfl
    · exact h.skip inside (same inside)
  | space _ inside | commentLine _ inside | commentBlock _ inside =>
    exact h.skip inside (same inside)
  | lexeme _ inside => exact h.token inside rfl rfl (same inside)

/-- Behind the last character, nothing stands in a line. -/
theorem closing (scan : Scan) : scan.Copies source source' move scan.closing := by
  have ends : ∀ mark ∈ scan.closing, mark.kind.endsLine = true := by
    intro mark hm
    rcases List.mem_append.1 hm with hm | hm
    · cases List.eq_of_mem_replicate hm
      rfl
    · cases List.mem_singleton.1 hm
      rfl
  have none : scan.Copies source source' move [] := by
    refine ⟨fun _ piece front _ last hl => ?_, fun piece part _ first hf => ?_⟩
    · rw [List.prefix_nil.1 front] at hl
      cases hl
    · rw [List.infix_nil.1 part] at hf
      cases hf
  rw [← List.append_nil scan.closing]
  exact none.marks ends (.inr (List.append_ne_nil_of_right_ne_nil _ (List.cons_ne_nil _ _)))

end Copies
end Scan
end StylusToScss
