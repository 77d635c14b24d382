import StylusToScss.Text.Blank

/-!
# Texts up to white space

`condensed` puts one blank in place of each run of white space, and takes off what stands at the
ends. Texts that differ in their white space only are the same text then.
-/

namespace StylusToScss.Text

variable {a b text more : List Char}

/-- The text with one blank in place of each run of white space. -/
def collapse : List Char → List Char
  | [] => []
  | c :: rest =>
    if isBlank c then ' ' :: (collapse rest).dropWhile (· == ' ') else c :: collapse rest

/-- The text with one blank in place of each run of white space within it. -/
def condensed (text : List Char) : List Char := trim (collapse text)

/-- The text is white space. -/
def IsBlank (text : List Char) : Prop := ∀ c ∈ text, isBlank c = true

theorem isBlank_append (ha : IsBlank a) (hb : IsBlank b) : IsBlank (a ++ b) :=
  List.forall_mem_append.2 ⟨ha, hb⟩

theorem isBlank_replicate {c : Char} (h : isBlank c = true) (n : Nat) :
    IsBlank (List.replicate n c) := by
  intro d hd
  rw [List.eq_of_mem_replicate hd]
  exact h

/-- What a text collapses to depends on its end only through what the end collapses to. -/
theorem collapse_append (front : List Char) (h : collapse a = collapse b) :
    collapse (front ++ a) = collapse (front ++ b) := by
  induction front with
  | nil => exact h
  | cons c rest ih => simp only [List.cons_append, collapse, ih]

/-- White space in front of a text makes one blank of itself and the blanks behind it. -/
theorem collapse_blank (blank : IsBlank a) (some : a ≠ []) (text : List Char) :
    collapse (a ++ text) = ' ' :: (collapse text).dropWhile (· == ' ') := by
  induction a with
  | nil => exact absurd rfl some
  | cons c rest ih =>
    obtain ⟨here, more⟩ := List.forall_mem_cons.1 blank
    rw [List.cons_append, collapse, if_pos here]
    cases rest with
    | nil => rfl
    | cons d rest =>
      rw [ih more (List.cons_ne_nil _ _)]
      simp [dropWhile_dropWhile]

/-- Any white space stands for any other. -/
theorem collapse_blank_eq (ha : IsBlank a) (hb : IsBlank b) (some : a ≠ []) (some' : b ≠ [])
    (h : collapse text = collapse more) : collapse (a ++ text) = collapse (b ++ more) := by
  rw [collapse_blank ha some, collapse_blank hb some', h]

theorem trim_cons_blank (text : List Char) : trim (' ' :: text) = trim text := rfl

theorem trim_dropWhile (text : List Char) : trim (text.dropWhile (· == ' ')) = trim text := by
  induction text with
  | nil => rfl
  | cons c rest ih =>
    by_cases blank : c = ' '
    · subst blank
      exact ih
    · rw [List.dropWhile_cons_of_neg (by simpa using blank)]

/-- White space in front of a text is taken off. -/
theorem condensed_append (blank : IsBlank a) (text : List Char) :
    condensed (a ++ text) = condensed text := by
  cases a with
  | nil => rfl
  | cons c rest =>
    rw [condensed, collapse_blank blank (List.cons_ne_nil _ _), trim_cons_blank, trim_dropWhile]
    rfl

end StylusToScss.Text
