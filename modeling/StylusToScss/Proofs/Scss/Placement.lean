import Mathlib.Data.List.Induction
import StylusToScss.Proofs.Scss.Marks

/-!
# Where marks stand in a text

Marks that lie along an outline leave the same layout behind as the outline does, since the layout
knows nothing of texts. So the place of the outline that a mark fills says how the text goes on
there: `Lays.layOut_at` cuts the text at it, and behind the marks of a part of the outline the
layout is the one read off the part (`layoutBehind`).
-/

namespace StylusToScss

variable {allowed : Char → Prop} {a b outline earlier later marks before : List Mark} {mark : Mark}

/-! ## The layout behind marks -/

/-- The layout behind marks: the line they account for, the blocks they leave open, and whether they
start a statement. -/
def layoutBehind (marks : List Mark) : Layout :=
  ⟨accounted marks, openBlocks marks, hasStatement marks⟩

theorem accounted_concat (marks : List Mark) (mark : Mark) :
    accounted (marks ++ [mark]) =
      match mark.line? with
      | some line => max (accounted marks) line
      | none => accounted marks := by
  cases lined : mark.line? with
  | none => simp [accounted, lined]
  | some line => simp [accounted, lined]

theorem openBlocks_opening (fit : marks.count .closing ≤ marks.count .opening) :
    openBlocks (marks ++ [.opening]) = openBlocks marks + 1 := by
  have none : List.count .closing [Mark.opening] = 0 := rfl
  rw [openBlocks, openBlocks, List.count_append, List.count_append, List.count_singleton_self, none]
  omega

theorem openBlocks_closing (marks : List Mark) :
    openBlocks (marks ++ [.closing]) = openBlocks marks - 1 := by
  have none : List.count .opening [Mark.closing] = 0 := rfl
  rw [openBlocks, openBlocks, List.count_append, List.count_append, List.count_singleton_self, none]
  omega

/-- A mark that opens or closes no block leaves as many open. -/
theorem openBlocks_concat (opens : mark ≠ .opening) (closes : mark ≠ .closing) :
    openBlocks (marks ++ [mark]) = openBlocks marks := by
  rw [openBlocks, openBlocks, List.count_append, List.count_append, List.count_singleton,
    List.count_singleton]
  simp [opens, closes]

theorem hasStatement_concat (marks : List Mark) (mark : Mark) :
    hasStatement (marks ++ [mark]) = (hasStatement marks || mark.isStatement) := by
  simp [hasStatement]

/-- No part of the marks closes a block that is not open. -/
def Fits (marks : List Mark) : Prop :=
  ∀ front, front <+: marks → front.count .closing ≤ front.count .opening

theorem Fits.count_le (h : Fits marks) : marks.count .closing ≤ marks.count .opening :=
  h marks (List.prefix_refl marks)

theorem Fits.of_append (h : Fits (a ++ b)) : Fits a :=
  fun front hf => h front (hf.trans (List.prefix_append a b))

/-- The layout behind marks that fit is the one read off them. -/
theorem foldl_after_start (fit : Fits marks) :
    marks.foldl Mark.after .start = layoutBehind marks := by
  -- from the right, as the layout is handed on from the left
  induction marks using List.reverseRecOn with
  | nil => rfl
  | append_singleton marks mark ih =>
    have here := fit.of_append.count_le
    rw [List.foldl_concat, ih fit.of_append]
    rw [layoutBehind, layoutBehind, accounted_concat, hasStatement_concat]
    cases mark with
    | opening => simp [Mark.after, Mark.line?, Mark.isStatement, openBlocks_opening here]
    | closing => simp [Mark.after, Mark.line?, Mark.isStatement, openBlocks_closing]
    | _ => simp [Mark.after, Mark.line?, Mark.isStatement, openBlocks_concat]

/-! ## Marks along an outline -/

theorem Mark.Fills.after_eq {place : Mark} (h : place.Fills allowed mark) (layout : Layout) :
    mark.after layout = place.after layout := by
  cases h with
  | text inline ends => rfl
  | place same => rfl

namespace Lays

theorem foldl_after (h : Lays allowed outline marks) (layout : Layout) :
    marks.foldl Mark.after layout = outline.foldl Mark.after layout := by
  induction h generalizing layout with
  | nil => rfl
  | cons fills _ ih =>
    rw [List.foldl_cons, List.foldl_cons, fills.after_eq]
    exact ih _

/-- Marks along two parts of an outline come one after the other. -/
theorem of_append (h : Lays allowed (a ++ b) marks) :
    ∃ before after, marks = before ++ after ∧ Lays allowed a before ∧ Lays allowed b after := by
  induction a generalizing marks with
  | nil => exact ⟨[], marks, rfl, .nil, h⟩
  | cons place rest ih =>
    cases h with
    | cons fills more =>
      obtain ⟨before, after, rfl, first, second⟩ := ih more
      exact ⟨_ :: before, after, rfl, .cons fills first, second⟩

/-- A place of the outline that is no text is a mark. -/
theorem of_place (h : Lays allowed (mark :: later) marks) (place : mark.isText = false) :
    ∃ after, marks = mark :: after ∧ Lays allowed later after := by
  cases h with
  | cons fills more =>
    cases fills with
    | text => cases place
    | place => exact ⟨_, rfl, more⟩

/-- The text of marks along an outline, cut at a place of it. -/
theorem layOut_at (h : Lays allowed outline marks) (closed : Balanced .opening .closing outline)
    (split : outline = earlier ++ mark :: later) (place : mark.isText = false) :
    ∃ before after, marks = before ++ mark :: after ∧ Lays allowed earlier before ∧
      Lays allowed later after ∧
      layOut marks = layOut before ++ mark.written (layoutBehind earlier) ++
        String.join (layPieces (mark.after (layoutBehind earlier)) after) := by
  subst split
  obtain ⟨before, _, rfl, first, second⟩ := h.of_append
  obtain ⟨after, rfl, third⟩ := second.of_place place
  refine ⟨before, after, rfl, first, third, ?_⟩
  have behind : before.foldl Mark.after .start = layoutBehind earlier := by
    rw [first.foldl_after]
    exact foldl_after_start (Fits.of_append closed.front)
  rw [layOut, layPieces_append, behind, String.join_append, layPieces, String.join_cons,
    String.append_assoc]
  rfl

end Lays

/-! ## Where a statement may start -/

/-- What ends a statement, or opens or closes a block. -/
def completers : List Char := [';', '\x7b', '\x7d']

/-- Text behind which a statement may start ends so. -/
theorem Mark.Fills.ends {place : Mark} (h : place.Fills allowed mark)
    (done : place.completes = true) (layout : Layout) :
    ∃ front, ∃ c ∈ completers, (mark.written layout).toList = front ++ [c] := by
  cases h with
  | @text ending s inline suffix =>
    obtain rfl : ending = ";" := of_decide_eq_true done
    obtain ⟨front, same⟩ := suffix
    exact ⟨front, ';', by simp [completers], same.symm⟩
  | place same =>
    cases mark with
    | opening => exact ⟨[' '], '\x7b', by simp [completers], by rw [Mark.written]; rfl⟩
    | closing =>
      refine ⟨("\n" ++ Layout.indentation (layout.depth - 1)).toList, '\x7d',
        by simp [completers], ?_⟩
      rw [Mark.written, String.toList_append]
      rfl
    | text s => cases same
    | statement | selector | clause | sameStatement => cases done

theorem layOut_concat (marks : List Mark) (mark : Mark) :
    layOut (marks ++ [mark]) = layOut marks ++ mark.written (marks.foldl Mark.after .start) := by
  rw [layOut, layPieces_append, String.join_append]
  simp only [layPieces, String.join_cons, String.join_nil, String.append_empty]
  rfl

theorem Lays.ends (h : Lays allowed earlier before)
    (done : ∀ mark ∈ earlier.getLast?, mark.completes = true) :
    before = [] ∨ ∃ front, ∃ c ∈ completers, (layOut before).toList = front ++ [c] := by
  rcases List.eq_nil_or_concat' earlier with rfl | ⟨rest, place, rfl⟩
  · cases h
    exact .inl rfl
  · obtain ⟨before, _, rfl, -, last⟩ := h.of_append
    cases last with
    | cons fills more =>
      cases more
      have complete := done place (by simp)
      obtain ⟨front, c, hc, same⟩ := fills.ends complete (before.foldl Mark.after .start)
      refine .inr ⟨(layOut before).toList ++ front, c, hc, ?_⟩
      rw [layOut_concat, String.toList_append, same, List.append_assoc]

end StylusToScss
