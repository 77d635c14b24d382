import Mathlib.Logic.Function.Basic
import StylusToScss.Proofs.Statement.Parts
import StylusToScss.Proofs.Token.Rescaled
import StylusToScss.Scss.Conversion

/-!
# Only the order of indentation widths matters

A source and the one that is indented anew are read as the same stylesheet, if `f` keeps the order
of the widths (`rescaled_agree`). The tokens of the one are found in the other, moved apart, and so
are the texts that are cut out of it; a statement that is read in the one is read in the other, in
both directions, since the tokens can be moved back.
-/

namespace StylusToScss

variable {f : Nat → Nat} {move : Move} {source source' : String} {tokens piece : List Token}

/-! ## There and back -/

theorem exists_bound (tokens : List Token) :
    ∃ bound, ∀ token ∈ tokens, token.span.start ≤ bound ∧ token.span.stop ≤ bound := by
  induction tokens with
  | nil => exact ⟨0, List.forall_mem_nil _⟩
  | cons token tokens ih =>
    obtain ⟨bound, below⟩ := ih
    refine ⟨bound + token.span.start + token.span.stop, List.forall_mem_cons.2 ⟨by omega, ?_⟩⟩
    intro other ht
    have := below other ht
    omega

namespace Move.Spreads

open Classical in
/-- The way back for tokens that stand up to `bound`. Offsets that no token has are moved out of the
way of those that a token has. -/
noncomputable def back (spreads : move.Spreads) (bound : Nat) : Move where
  offset n :=
    if ∃ m ≤ bound, move.offset m = n then Function.invFun move.offset n else bound + 1 + n
  lines := 0
  column line := Function.invFun (move.column line)
  injective := by
    have inverse (m : Nat) : Function.invFun move.offset (move.offset m) = m :=
      Function.leftInverse_invFun spreads.offset.injective m
    intro a b same
    by_cases fromHere : ∃ m ≤ bound, move.offset m = a <;>
      by_cases fromThere : ∃ m ≤ bound, move.offset m = b
    · obtain ⟨m, le, rfl⟩ := fromHere
      obtain ⟨n, le', rfl⟩ := fromThere
      rw [if_pos ⟨m, le, rfl⟩, if_pos ⟨n, le', rfl⟩, inverse, inverse] at same
      rw [same]
    · obtain ⟨m, le, rfl⟩ := fromHere
      rw [if_pos ⟨m, le, rfl⟩, if_neg fromThere, inverse] at same
      omega
    · obtain ⟨n, le, rfl⟩ := fromThere
      rw [if_neg fromHere, if_pos ⟨n, le, rfl⟩, inverse] at same
      omega
    · rw [if_neg fromHere, if_neg fromThere] at same
      omega

theorem back_offset (spreads : move.Spreads) {bound n : Nat} (le : n ≤ bound) :
    (spreads.back bound).offset (move.offset n) = n :=
  (if_pos ⟨n, le, rfl⟩).trans (Function.leftInverse_invFun spreads.offset.injective n)

theorem back_column (spreads : move.Spreads) (bound line n : Nat) :
    (spreads.back bound).column line (move.column line n) = n :=
  Function.leftInverse_invFun (spreads.column line).injective n

/-- Tokens that have been moved apart can be moved back. -/
theorem restores (spreads : move.Spreads) {bound : Nat}
    (below : ∀ token ∈ tokens, token.span.start ≤ bound ∧ token.span.stop ≤ bound) :
    (tokens.map (·.moved move)).map (·.moved (spreads.back bound)) = tokens := by
  rw [List.map_map]
  refine (List.map_congr_left fun token ht => ?_).trans (List.map_id _)
  obtain ⟨starts, stops⟩ := below token ht
  simp only [Function.comp_apply, Token.moved, Span.moved, spreads.lines, Nat.add_zero,
    spreads.back_offset starts, spreads.back_offset stops, spreads.back_column]
  rfl

end Move.Spreads

/-! ## Texts -/

/-- What is cut out of a source together is cut out of the other one as the same text. -/
theorem SameTexts.rawText_eq (h : SameTexts source source' move tokens)
    (part : piece <:+: tokens) (inLine : InLine piece) :
    rawText source' (piece.map (·.moved move)) = rawText source piece := by
  unfold rawText
  rw [List.head?_map, List.getLast?_map]
  cases first : piece.head? with
  | none => rfl
  | some token =>
    cases last : piece.getLast? with
    | none => rfl
    | some end_ =>
      obtain ⟨text, slice, slice'⟩ := h piece part inLine token first end_ last
      simp only [Option.map_some]
      rw [slice, show slice? source' (token.moved move).span.start (end_.moved move).span.stop =
        some text from slice']

/-! ## Statements -/

/-- Where the same texts are cut out of two sources, the same statements are read. -/
theorem carries_of_rawText (cut : tokenize source = .ok tokens) (lines : move.lines = 0)
    (texts : ∀ piece, piece <:+: tokens → InLine piece →
      rawText source' (piece.map (·.moved move)) = rawText source piece) :
    Carries False (fun nodes nodes' => nodes' = nodes) (readStatements source tokens)
      (readStatements source' (tokens.map (·.moved move))) := by
  obtain ⟨body, last, rfl, ended⟩ := exists_last_of_tokenize cut
  have same : ∀ piece ∈ sourceTexts false (body ++ [last]),
      (Embedding.entire source source' move last ended False nofun).SameText piece := by
    intro piece hp
    obtain ⟨part, inLine⟩ := isInfix_of_mem_sourceTexts hp
    show Carries _ _ (rawText source piece) (rawText source' (piece.map (·.moved move)))
    rw [texts piece part inLine]
    cases rawText source piece with
    | ok text => exact .ok rfl
    | error e => exact .error e
  refine (Embedding.carries_entire cut ended same).mono fun nodes _ raised => ?_
  rw [raised, lines, raisedNodes_zero]

/-- A part of tokens that have been moved is a part of the tokens, moved. -/
theorem exists_part_of_map (part : piece <:+: tokens.map (·.moved move)) :
    ∃ earlier, earlier <:+: tokens ∧ piece = earlier.map (·.moved move) := by
  obtain ⟨before, after, split⟩ := part
  obtain ⟨front, back, rfl, moved, -⟩ := List.map_eq_append_iff.1 split.symm
  obtain ⟨before, earlier, rfl, -, rfl⟩ := List.map_eq_append_iff.1 moved
  exact ⟨earlier, ⟨before, back, rfl⟩, rfl⟩

section
variable (rising : StrictMono f) (zero : f 0 = 0) (source : String)
include rising zero

theorem Stylesheet.agree_ofSource_rescaled :
    Agree (fun sheet sheet' => sheet' = sheet) (fun _ _ => True) (ofSource source)
      (ofSource (rescale f source)) := by
  have agree := agree_tokenize_rescaled rising zero source
  unfold ofSource
  cases cut : tokenize source with
  | error fault =>
    obtain ⟨fault', cut', -⟩ := agree.of_eq_error cut
    rw [cut']
    trivial
  | ok tokens =>
    obtain ⟨_, cut', move, spreads, rfl, texts⟩ := agree.of_eq_ok cut
    obtain ⟨bound, below⟩ := exists_bound tokens
    have texts' : ∀ piece, piece <:+: tokens.map (·.moved move) → InLine piece →
        rawText source (piece.map (·.moved (spreads.back bound))) =
          rawText (rescale f source) piece := by
      intro piece part inLine
      obtain ⟨earlier, within, rfl⟩ := exists_part_of_map part
      rw [spreads.restores fun token ht => below token (within.subset ht)]
      exact (texts.rawText_eq within fun token ht =>
        inLine (token.moved move) (List.mem_map_of_mem ht)).symm
    have there := carries_of_rawText cut spreads.lines fun piece => texts.rawText_eq
    have again := carries_of_rawText cut' rfl texts'
    rw [spreads.restores below] at again
    rw [cut']
    refine (there.agree again).map ?_
    rintro nodes _ rfl
    rfl

end

/-- Let `f` keep the order of the widths and leave the margin in its place. Then a source and the
one with every logical line indented anew are cut into the same kinds of tokens on the same lines,
and read as the same stylesheet, or fail both times; so they are converted to the same. -/
theorem rescaled_agree (f : Nat → Nat) (rising : StrictMono f) (zero : f 0 = 0) (source : String) :
    Agree (fun tokens tokens' => tokens'.map (fun token => (token.kind, token.span.line)) =
        tokens.map fun token => (token.kind, token.span.line))
      (fun _ _ => True) (tokenize source) (tokenize (rescale f source)) ∧
      Agree (fun sheet sheet' => sheet' = sheet) (fun _ _ => True) (Stylesheet.ofSource source)
        (Stylesheet.ofSource (rescale f source)) ∧
      ∀ options, Agree (fun converted converted' => converted' = converted) (fun _ _ => True)
          (convert options source) (convert options (rescale f source)) ∧
        ((Stylesheet.ofSource source).toOption.isSome →
          convert options (rescale f source) = convert options source) := by
  have sheets := Stylesheet.agree_ofSource_rescaled rising zero source
  refine ⟨?_, sheets, fun options => ?_⟩
  · refine (agree_tokenize_rescaled rising zero source).mono ?_ fun _ _ _ => trivial
    rintro tokens _ ⟨move, spreads, rfl, -⟩
    rw [List.map_map]
    refine List.map_congr_left fun token _ => ?_
    simp only [Function.comp_apply, Token.kind_moved, Token.line_moved, spreads.lines, Nat.add_zero]
  · unfold convert
    cases read : Stylesheet.ofSource source with
    | error fault =>
      obtain ⟨fault', read', -⟩ := sheets.of_eq_error read
      rw [read']
      exact ⟨trivial, nofun⟩
    | ok sheet =>
      obtain ⟨_, read', same⟩ := sheets.of_eq_ok read
      rw [read', same]
      refine ⟨?_, fun _ => rfl⟩
      simp only
      cases sheet.convert options with
      | ok converted => exact rfl
      | error e => trivial

/-- Tabs, two levels that are closed at once, an empty line, a line with a comment only, and lines
that go on inside of a comment and inside of parentheses. -/
theorem rescaled_nested : StrictMono (fun width => 3 * width) ∧ 3 * 0 = 0 ∧
    rescale (3 * ·) "a\n\tb\n\t  c: d /*\n x */ e\n \t\n // f\nj\n\tg: h(1,\n   2)" =
      "a\n   b\n         c: d /*\n x */ e\n      \n   // f\nj\n   g: h(1,\n   2)" ∧
    convert ⟨.scss, .strict⟩
        "a\n   b\n         c: d /*\n x */ e\n      \n   // f\nj\n   g: h(1,\n   2)" =
      convert ⟨.scss, .strict⟩
        "a\n\tb\n\t  c: d /*\n x */ e\n \t\n // f\nj\n\tg: h(1,\n   2)" := by
  have rising : StrictMono (fun width => 3 * width) := fun a b less => by
    show 3 * a < 3 * b
    omega
  have scaled : rescale (3 * ·) "a\n\tb\n\t  c: d /*\n x */ e\n \t\n // f\nj\n\tg: h(1,\n   2)" =
      "a\n   b\n         c: d /*\n x */ e\n      \n   // f\nj\n   g: h(1,\n   2)" := by
    decide +kernel
  have agree := rescaled_agree (3 * ·) rising rfl
    "a\n\tb\n\t  c: d /*\n x */ e\n \t\n // f\nj\n\tg: h(1,\n   2)"
  refine ⟨rising, rfl, scaled, ?_⟩
  rw [← scaled]
  exact (agree.2.2 ⟨.scss, .strict⟩).2 (by decide +kernel)

end StylusToScss
