import Mathlib.Data.List.Basic
import StylusToScss.Pieces

/-!
# The pieces of a list that is put together

Cutting goes through appending where a separator stands, so a list that is put together from pieces
without separators is cut into the same pieces again.
-/

namespace StylusToScss

variable {α : Type} {p : α → Bool} {separator : α} {pieces : List (List α)}

theorem cutAt_ne_nil (l : List α) : cutAt p l ≠ [] := by
  cases l with
  | nil => exact List.cons_ne_nil _ _
  | cons item rest =>
    rw [cutAt]
    split
    · exact List.cons_ne_nil _ _
    · exact consPiece_ne_nil item _

theorem consPiece_append (item : α) (h : pieces ≠ []) (more : List (List α)) :
    consPiece item (pieces ++ more) = consPiece item pieces ++ more := by
  cases pieces with
  | nil => exact absurd rfl h
  | cons piece rest => rfl

theorem cutAt_eq_singleton {l : List α} (h : ∀ item ∈ l, p item = false) : cutAt p l = [l] := by
  induction l with
  | nil => rfl
  | cons item rest ih =>
    obtain ⟨here, more⟩ := List.forall_mem_cons.1 h
    simp [cutAt, here, ih more, consPiece]

section
variable (cuts : p separator = true)
include cuts

theorem cutAt_append (a b : List α) :
    cutAt p (a ++ separator :: b) = cutAt p a ++ cutAt p b := by
  induction a with
  | nil => simp only [List.nil_append, cutAt, cuts, if_true, List.cons_append]
  | cons item rest ih =>
    rw [List.cons_append, cutAt, cutAt, ih]
    split
    · rfl
    · exact consPiece_append item (cutAt_ne_nil rest) _

/-- Pieces that a separator ends. -/
theorem cutAt_ended (whole : ∀ piece ∈ pieces, ∀ item ∈ piece, p item = false) (rest : List α) :
    cutAt p (pieces.flatMap (· ++ [separator]) ++ rest) = pieces ++ cutAt p rest := by
  induction pieces with
  | nil => rfl
  | cons piece more ih =>
    obtain ⟨here, behind⟩ := List.forall_mem_cons.1 whole
    rw [List.flatMap_cons, List.append_assoc, List.append_assoc, List.singleton_append,
      cutAt_append cuts, cutAt_eq_singleton here, ih behind]
    rfl

end

/-! ## Lines -/

/-- The lines of a text. -/
def textLines (text : List Char) : List (List Char) := cutAt (· == '\n') text

theorem textLines_append (a b : List Char) :
    textLines (a ++ '\n' :: b) = textLines a ++ textLines b :=
  cutAt_append (p := (· == '\n')) rfl a b

theorem textLines_ended (lines : List (List Char)) (whole : ∀ line ∈ lines, '\n' ∉ line)
    (rest : List Char) :
    textLines (lines.flatMap (· ++ ['\n']) ++ rest) = lines ++ textLines rest := by
  refine cutAt_ended (p := (· == '\n')) rfl (fun line hl c hc => ?_) rest
  exact beq_false_of_ne fun same => whole line hl (same ▸ hc)

/-- Line feeds that end no line are blank lines. -/
theorem textLines_replicate (n : Nat) (rest : List Char) :
    textLines (List.replicate n '\n' ++ rest) = List.replicate n [] ++ textLines rest := by
  have empty := textLines_ended (List.replicate n []) (by simp) rest
  rwa [List.flatMap_replicate, List.nil_append, List.flatten_replicate_singleton] at empty

/-- With a line feed behind them too, each of the lines is ended by one. -/
theorem intercalate_newline {texts : List String} (h : texts ≠ []) :
    ("\n".intercalate texts).toList ++ ['\n'] =
      (texts.map String.toList).flatMap (· ++ ['\n']) := by
  induction texts with
  | nil => exact absurd rfl h
  | cons text rest ih =>
    cases rest with
    | nil => simp
    | cons next rest =>
      have behind := ih (List.cons_ne_nil _ _)
      rw [String.intercalate_cons_cons, String.toList_append, String.toList_append,
        List.append_assoc, behind, List.map_cons, List.flatMap_cons]
      rfl

section
variable {texts : List String} (h : texts ≠ []) (whole : ∀ s ∈ texts, '\n' ∉ s.toList)
include h whole

theorem textLines_intercalate_append (rest : List Char) :
    textLines (("\n".intercalate texts).toList ++ '\n' :: rest) =
      texts.map String.toList ++ textLines rest := by
  rw [← List.singleton_append, ← List.append_assoc, intercalate_newline h]
  refine textLines_ended _ (fun line hl => ?_) rest
  obtain ⟨s, hs, rfl⟩ := List.mem_map.1 hl
  exact whole s hs

theorem textLines_intercalate :
    textLines ("\n".intercalate texts).toList = texts.map String.toList := by
  have ended := textLines_intercalate_append h whole []
  rw [textLines_append] at ended
  exact List.append_cancel_right ended

/-- The lines of a group of lines, and below it. -/
theorem textLines_group {back : List Char} (hb : back = [] ∨ ∃ rest, back = '\n' :: rest) :
    ∃ below, textLines (("\n".intercalate texts).toList ++ back) =
      texts.map String.toList ++ below := by
  rcases hb with rfl | ⟨rest, rfl⟩
  · refine ⟨[], ?_⟩
    rw [List.append_nil, List.append_nil]
    exact textLines_intercalate h whole
  · exact ⟨_, textLines_intercalate_append h whole rest⟩

end

/-- The lines below a text that is empty or ends a line. -/
theorem textLines_below {front : List Char} (hf : front = [] ∨ ∃ above, front = above ++ ['\n'])
    (rest : List Char) : ∃ above, textLines (front ++ rest) = above ++ textLines rest := by
  rcases hf with rfl | ⟨text, rfl⟩
  · exact ⟨[], rfl⟩
  · refine ⟨textLines text, ?_⟩
    rw [List.append_assoc, List.singleton_append, textLines_append]

/-- Blank lines between two groups of lines. -/
theorem textLines_between {front back : List Char} {one two : List String} (blank : Nat)
    (hf : front = [] ∨ ∃ above, front = above ++ ['\n'])
    (hb : back = [] ∨ ∃ rest, back = '\n' :: rest) (h₁ : one ≠ []) (h₂ : two ≠ [])
    (whole₁ : ∀ s ∈ one, '\n' ∉ s.toList) (whole₂ : ∀ s ∈ two, '\n' ∉ s.toList) :
    ∃ above below, textLines (front ++ (("\n".intercalate one).toList ++ '\n' ::
        (List.replicate blank '\n' ++ (("\n".intercalate two).toList ++ back)))) =
      above ++ (one.map String.toList ++ (List.replicate blank [] ++
        (two.map String.toList ++ below))) := by
  obtain ⟨below, group⟩ := textLines_group h₂ whole₂ hb
  obtain ⟨above, lines⟩ := textLines_below hf (("\n".intercalate one).toList ++ '\n' ::
    (List.replicate blank '\n' ++ (("\n".intercalate two).toList ++ back)))
  refine ⟨above, below, ?_⟩
  rw [lines, textLines_intercalate_append h₁ whole₁, textLines_replicate, group]

end StylusToScss
