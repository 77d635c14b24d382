import Mathlib.Data.List.TakeWhile
import StylusToScss.Interpolation
import StylusToScss.Proofs.Value.Reading

/-!
# Cutting selector lists and interpolated text

A selector list loses its commas and the blanks around its selectors, and with them every selector
that is blank. So a list without any other character has no selectors (`splitSelectors_eq_nil_iff`).
The segments of a text are values.
-/

namespace StylusToScss

open Text

/-! ## Trimming -/

theorem mem_dropWhile_of_not {α : Type} {p : α → Bool} {l : List α} {a : α} (mem : a ∈ l)
    (h : p a = false) : a ∈ l.dropWhile p := by
  induction l with
  | nil => cases mem
  | cons b l ih =>
    rw [List.dropWhile_cons]
    split
    · next hb =>
      rcases List.mem_cons.1 mem with rfl | mem
      · rw [h] at hb
        cases hb
      · exact ih mem
    · exact mem

/-- Trimming keeps what is not blank. -/
theorem mem_trim {text : List Char} {c : Char} (mem : c ∈ text) (solid : isBlank c = false) :
    c ∈ trim text := by
  rw [trim, trimRight, List.mem_reverse]
  exact mem_dropWhile_of_not (List.mem_reverse.2 (mem_dropWhile_of_not mem solid)) solid

theorem trim_eq_nil_iff {text : List Char} : trim text = [] ↔ ∀ c ∈ text, isBlank c = true := by
  constructor
  · intro none c mem
    cases solid : isBlank c with
    | true => rfl
    | false =>
      have := mem_trim mem solid
      rw [none] at this
      cases this
  · intro blank
    have none : text.dropWhile isBlank = [] := List.dropWhile_eq_nil_iff.2 blank
    rw [trim, none]
    rfl

/-! ## Selectors -/

/-- A character that is no comma stands in a piece. -/
theorem mem_flatten_selectorPieces {text : List Char} {c : Char} (mem : c ∈ text) (comma : c ≠ ',')
    (state : SelectorState) : c ∈ (selectorPieces state text).flatten := by
  induction text generalizing state with
  | nil => cases mem
  | cons d text ih =>
    rw [selectorPieces]
    split
    · next cut =>
      rcases List.mem_cons.1 mem with rfl | mem
      · exact absurd cut.1 comma
      · exact ih mem state
    · rw [flatten_consPiece]
      rcases List.mem_cons.1 mem with rfl | mem
      · exact .head _
      · exact .tail _ (ih mem _)

/-- Outside quotes and brackets, blanks and commas leave the state as it is. -/
theorem after_outside_of_isBlank {c : Char} (blank : isBlank c = true) :
    SelectorState.outside.after c = .outside := by
  have other (d : Char) (solid : isBlank d = false) : c ≠ d := by
    rintro rfl
    rw [blank] at solid
    cases solid
  unfold SelectorState.after
  simp only [SelectorState.outside]
  rw [if_neg, if_neg, if_neg]
  · simp [other ')' (by decide), other ']' (by decide)]
  · simp [other '(' (by decide), other '[' (by decide)]
  · simp [other '"' (by decide), other '\'' (by decide)]

/-- All pieces of a text of commas and blanks are blank. -/
theorem isBlank_of_mem_flatten {text : List Char} (h : ∀ c ∈ text, c = ',' ∨ isBlank c = true) :
    ∀ c ∈ (selectorPieces .outside text).flatten, isBlank c = true := by
  induction text with
  | nil => exact nofun
  | cons d text ih =>
    have rest := ih fun c hc => h c (.tail _ hc)
    rw [selectorPieces]
    split
    · exact rest
    · next uncut =>
      have blank : isBlank d = true := (h d (.head _)).resolve_left fun comma => uncut ⟨comma, rfl⟩
      rw [after_outside_of_isBlank blank, flatten_consPiece]
      rintro c (_ | ⟨_, hc⟩)
      · exact blank
      · exact rest c hc

/-- A list of selectors is empty exactly if its text holds nothing but commas and blanks. -/
theorem splitSelectors_eq_nil_iff {text : List Char} :
    splitSelectors text = [] ↔ ∀ c ∈ text, c = ',' ∨ isBlank c = true := by
  have pieces : splitSelectors text = [] ↔
      ∀ c ∈ (selectorPieces .outside text).flatten, isBlank c = true := by
    rw [splitSelectors, List.filter_eq_nil_iff, List.forall_mem_map, List.forall_mem_flatten]
    simp only [decide_not, Bool.not_eq_true', decide_eq_false_iff_not, Decidable.not_not,
      trim_eq_nil_iff]
  rw [pieces]
  constructor
  · intro blank c mem
    by_cases comma : c = ','
    · exact .inl comma
    · exact .inr (blank c (mem_flatten_selectorPieces mem comma .outside))
  · exact isBlank_of_mem_flatten

/-! ## Segments -/

variable {may : Leeway}

theorem areValues_literalSegment (text : List Char) (line : Nat) :
    AreValues may (literalSegment text line) := by
  unfold literalSegment
  split
  · trivial
  · exact ⟨trivial, trivial⟩

theorem yields_segmentsFrom (whole : List Char) (line : Nat) (text : List Char) :
    Yields (AreValues may) (· ≠ .outOfRange) (segmentsFrom whole line text) := by
  fun_induction segmentsFrom whole line text with
  | case1 => exact areValues_literalSegment _ _
  | case2 => exact nofun
  | case3 => exact nofun
  | case4 text _ inside _ _ rest _ _ _ ih =>
    refine ih.bind fun more hm => ?_
    exact areValues_append.2 ⟨areValues_literalSegment _ _, trivial, hm⟩

/-- The segments of a text are values. -/
theorem yields_splitSegments (may : Leeway) (text : List Char) (line column : Nat) :
    Yields (AreValues may) Located.Declared (splitSegments text line column) := by
  have h := @yields_segmentsFrom may text line text
  unfold splitSegments
  split
  · next segments ok => exact h.of_eq_ok ok
  · next cause error => exact h.of_eq_error error

end StylusToScss
