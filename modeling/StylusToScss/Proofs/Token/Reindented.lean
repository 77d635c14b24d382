import Mathlib.Order.Monotone.Basic
import StylusToScss.Proofs.Token.Exchange

/-!
# A source that is indented anew

`rescale f source` is the source with each of its logical lines indented by as many spaces as `f`
gives for the blanks it started with. What a logical line is only shows as the scanner goes: blanks
at the start of a physical line are left as they are inside of parentheses and comments, and so is
everything behind the place where the scanner fails.

* `Scan.exists_rescaled`: up to the end of the line, what is left of a source is also left of the
  one that is indented anew.
* `Scan.step_rescaled_line` and `Scan.step_rescaled_inside`: so a step goes as well in front of the
  text that is indented anew.
* `reindent_map`: which levels a line opens or closes depends on the order of the widths only.
-/

namespace StylusToScss

namespace Scan

/-- The blanks that a logical line starts with, if one starts at the scan. -/
def margin (scan : Scan) : List Char :=
  if scan.lineStart then scan.cursor.rest.takeWhile isSpace else []

/-- The text from the scan on, without these blanks. -/
def inner (scan : Scan) : List Char := scan.cursor.rest.drop scan.margin.length

/-- The spaces in their place. -/
def newMargin (f : Nat → Nat) (scan : Scan) : List Char :=
  if scan.lineStart then List.replicate (f scan.margin.length) ' ' else []

/-- The text from the scan on, with each logical line indented anew. -/
def rescaled (f : Nat → Nat) (scan : Scan) : List Char :=
  match _hr : scan.cursor.rest with
  | [] => []
  | c :: rest =>
    match _hs : scan.step c rest with
    | .error _ => scan.newMargin f ++ scan.inner
    | .ok (_, next) =>
      let taken := scan.inner.take (scan.inner.length - next.cursor.rest.length)
      scan.newMargin f ++ (taken ++ next.rescaled f)
termination_by scan.size
decreasing_by exact (step_ok _hr _hs).size_lt

end Scan

/-- The source with each logical line indented by as many spaces as `f` gives for its blanks. -/
def rescale (f : Nat → Nat) (source : String) : String :=
  String.ofList ((Scan.start source.toList).rescaled f)

/-- Blanks count for their number only, and only where a logical line starts. -/
example : rescale (3 * ·) "a\n\tb /*\n x */ c\n  d(\n e)" =
    "a\n   b /*\n x */ c\n      d(\n e)" := by
  decide +kernel

/-! ## Widths -/

/-- A line opens and closes the same levels whatever the widths are, as long as their order is the
same. -/
theorem reindent_map {f : Nat → Nat} (rising : StrictMono f) (zero : f 0 = 0) (levels : List Nat)
    (width : Nat) :
    reindent (levels.map f) (f width) =
      (reindent levels width).map fun (kinds, opened) => (kinds, opened.map f) := by
  have innermost (levels : List Nat) : (levels.map f).headD 0 = f (levels.headD 0) := by
    cases levels with
    | nil => exact zero.symm
    | cons level levels => rfl
  have kept : (levels.map f).dropWhile (f width < ·) =
      (levels.dropWhile (width < ·)).map f := by
    rw [List.dropWhile_map]
    simp only [Function.comp_def, rising.lt_iff_lt]
  unfold reindent
  simp only [kept, innermost, rising.lt_iff_lt, rising.injective.eq_iff,
    List.length_map]
  split
  · rfl
  · split <;> rfl

/-! ## Texts that agree up to the end of a line -/

/-- Both texts start with the same line, and with what ends it. -/
def SharesLine (text text' : List Char) : Prop :=
  ∃ line tail tail', text = line ++ tail ∧ text' = line ++ tail' ∧ AtLineEnd tail ∧
    tail'.head? = tail.head?

namespace SharesLine

variable {text text' : List Char}

theorem refl (text : List Char) : SharesLine text text :=
  ⟨text, [], [], (List.append_nil _).symm, (List.append_nil _).symm, nofun, rfl⟩

theorem prepend (taken : List Char) (h : SharesLine text text') :
    SharesLine (taken ++ text) (taken ++ text') := by
  obtain ⟨line, tail, tail', rfl, rfl, ends, head⟩ := h
  exact ⟨taken ++ line, tail, tail', by rw [List.append_assoc], by rw [List.append_assoc], ends,
    head⟩

theorem head?_eq (h : SharesLine text text') : text'.head? = text.head? := by
  obtain ⟨line, tail, tail', rfl, rfl, -, head⟩ := h
  rw [List.head?_append, List.head?_append, head]

end SharesLine

/-- Texts at the end of a line may stand in the place of each other, if they start alike. -/
theorem AtLineEnd.exchanges {tail tail' : List Char} (h : AtLineEnd tail)
    (head : tail'.head? = tail.head?) : Exchanges tail tail' where
  delimits := h.delimits
  delimits' := AtLineEnd.delimits (by rwa [AtLineEnd, head])
  uncommented := by
    intro slash
    rcases h '/' (head.symm.trans slash) with feed | ret
    · cases feed
    · cases ret

theorem endsAlike_of_head? {tail tail' : List Char} (head : tail'.head? = tail.head?)
    (left : List Char) : EndsAlike left tail tail' :=
  fun _ ends => by rwa [AtLineEnd, head]

/-! ## Steps -/

theorem Cursor.suffix_indentation {cursor next : Cursor}
    (indented : cursor.indentation = .ok next) : next.rest <:+ cursor.behindSpaces.rest := by
  rcases comment_cases cursor.behindSpaces.rest with ⟨_, here⟩ | ⟨_, here⟩ | plain
  · rw [indentation_lineComment here] at indented
    cases indented
    exact List.drop_suffix _ _
  · rw [indentation_blockComment here] at indented
    obtain ⟨behind, closed, rfl⟩ := map_eq_ok_iff.1 indented
    exact (List.drop_suffix _ _).trans (suffix_blockComment closed)
  · rw [indentation_plain plain] at indented
    cases indented
    exact List.suffix_refl _

namespace Scan

variable {f : Nat → Nat} {scan next : Scan} {tokens : List Token} {c : Char} {rest : List Char}

theorem margin_append_inner (scan : Scan) : scan.margin ++ scan.inner = scan.cursor.rest := by
  refine List.prefix_iff_eq_append.1 ?_
  unfold margin
  split
  · exact List.takeWhile_prefix _
  · exact List.nil_prefix

theorem inner_inside (inside : scan.lineStart = false) : scan.inner = scan.cursor.rest := by
  rw [inner, margin, inside]
  rfl

/-- Behind its margin, a logical line starts with no blank. -/
theorem solid_inner (starts : scan.lineStart = true) :
    ∀ d ∈ scan.inner.head?, isSpace d = false := by
  intro d hd
  have margin_eq : scan.margin = scan.cursor.rest.takeWhile isSpace := if_pos starts
  have inner_eq : scan.inner = scan.cursor.rest.dropWhile isSpace := by
    have split := scan.margin_append_inner
    rw [margin_eq] at split
    exact List.append_cancel_left (split.trans List.takeWhile_append_dropWhile.symm)
  have kept := List.head?_dropWhile_not isSpace scan.cursor.rest
  rw [← inner_eq, hd] at kept
  exact kept

theorem newMargin_inside (inside : scan.lineStart = false) : scan.newMargin f = [] := by
  rw [newMargin, inside]
  rfl

/-- A step takes the blanks that a logical line starts with, and some of the text behind them. -/
theorem Step.suffix (step : Step scan tokens next) : next.cursor.rest <:+ scan.inner := by
  cases step with
  | line starts indented opened =>
    rw [(startLine_cursor opened).1, inner, margin, starts]
    exact Cursor.suffix_indentation indented
  | newline inside _ broken =>
    rw [inner_inside inside, ← congrArg (·.2.cursor.rest) broken, rest_breakLine]
    exact List.drop_suffix _ _
  | commentBlock _ inside closed =>
    rw [inner_inside inside]
    exact Cursor.suffix_blockComment closed
  | space _ inside | commentLine _ inside | lexeme _ inside =>
    rw [inner_inside inside]
    exact List.drop_suffix _ _

/-- A logical line starts behind a line break. -/
theorem Step.breaks (step : Step scan tokens next) (starts : next.lineStart = true) :
    scan.lineStart = false ∧ lineBreak scan.cursor.rest ≠ 0 ∧
      scan.breakLine (lineBreak scan.cursor.rest) = (tokens, next) := by
  cases step with
  | line _ _ opened =>
    rw [(startLine_cursor opened).2] at starts
    cases starts
  | newline inside breaks broken => exact ⟨inside, breaks, broken⟩
  | space _ inside | commentLine _ inside | commentBlock _ inside | lexeme _ inside =>
    exact absurd (inside.symm.trans starts) nofun

/-- Inside of a line, a step takes a character at least. -/
theorem Step.taken_ne_nil {taken : List Char} (step : Step scan tokens next)
    (inside : scan.lineStart = false) (split : scan.cursor.rest = taken ++ next.cursor.rest) :
    taken ≠ [] := by
  rintro rfl
  have less := step.size_lt
  rw [size, size, split, inside] at less
  simp only [List.nil_append, Bool.toNat_false] at less
  omega

/-- Behind the start of a logical line, a scan stands inside of the line. -/
theorem Step.inside_of_starts (step : Step scan tokens next) (starts : scan.lineStart = true) :
    next.lineStart = false := by
  by_contra again
  have inside := (step.breaks (by simpa using again)).1
  exact absurd (starts.symm.trans inside) nofun

/-! ## The text that is indented anew -/

theorem rescaled_done (ended : scan.cursor.rest = []) : scan.rescaled f = [] := by
  rw [rescaled]
  split
  · rfl
  · next here => rw [ended] at here; cases here

theorem rescaled_failed {fault : Located LexFault} (here : scan.cursor.rest = c :: rest)
    (failed : scan.step c rest = .error fault) :
    scan.rescaled f = scan.newMargin f ++ scan.inner := by
  rw [rescaled]
  split
  · next none => rw [here] at none; cases none
  · next here' =>
    rw [here] at here'
    cases here'
    split
    · rfl
    · next stepped => rw [failed] at stepped; cases stepped

theorem rescaled_step (here : scan.cursor.rest = c :: rest)
    (stepped : scan.step c rest = .ok (tokens, next)) : ∃ taken,
      scan.inner = taken ++ next.cursor.rest ∧
        scan.rescaled f = scan.newMargin f ++ (taken ++ next.rescaled f) := by
  obtain ⟨taken, split⟩ := (step_ok here stepped).suffix
  refine ⟨taken, split.symm, ?_⟩
  rw [rescaled]
  split
  · next none => rw [here] at none; cases none
  · next here' =>
    rw [here] at here'
    cases here'
    split
    · next failed => rw [stepped] at failed; cases failed
    · next stepped' =>
      rw [stepped] at stepped'
      cases stepped'
      simp only [← split, List.length_append, Nat.add_sub_cancel, List.take_left']

/-- Inside of a line, what a step takes stands in front of both texts. -/
theorem rescaled_inside (inside : scan.lineStart = false) (here : scan.cursor.rest = c :: rest)
    (stepped : scan.step c rest = .ok (tokens, next)) : ∃ taken,
      rest = taken ++ next.cursor.rest ∧ scan.rescaled f = c :: (taken ++ next.rescaled f) := by
  obtain ⟨taken, split, rescaled⟩ := rescaled_step (f := f) here stepped
  rw [inner_inside inside] at split
  rw [newMargin_inside inside, List.nil_append] at rescaled
  obtain ⟨d, taken, rfl⟩ :=
    List.exists_cons_of_ne_nil ((step_ok here stepped).taken_ne_nil inside split)
  obtain ⟨rfl, more⟩ := List.cons.inj (here.symm.trans split)
  exact ⟨taken, more, rescaled⟩

section
variable (zero : f 0 = 0)
include zero

/-- Behind the new margin stands the same line as behind the old one. -/
theorem exists_rescaled (scan : Scan) : ∃ text,
    scan.rescaled f = scan.newMargin f ++ text ∧ SharesLine scan.inner text := by
  fun_induction rescaled f scan with
  | case1 scan ended =>
    have empty : scan.margin = [] ∧ scan.inner = [] :=
      List.append_eq_nil_iff.1 (scan.margin_append_inner.trans ended)
    refine ⟨[], ?_, empty.2 ▸ .refl []⟩
    rw [newMargin, empty.1, List.length_nil, zero, List.replicate_zero, ite_self]
    rfl
  | case2 scan c rest here fault failed => exact ⟨_, rfl, .refl _⟩
  | case3 scan c rest here tokens next stepped taken ih =>
    have step := step_ok here stepped
    obtain ⟨before, split, -⟩ := rescaled_step (f := f) here stepped
    have same : taken = before := by
      simp only [taken, split, List.length_append, Nat.add_sub_cancel, List.take_left']
    rw [same]
    refine ⟨_, rfl, ?_⟩
    rw [split]
    cases starts : next.lineStart with
    | false =>
      obtain ⟨text, rescaled, shares⟩ := ih
      rw [newMargin_inside starts, List.nil_append] at rescaled
      rw [inner_inside starts] at shares
      rw [rescaled]
      exact shares.prepend before
    | true =>
      -- The step takes the line break that ends the line.
      obtain ⟨inside, breaks, broken⟩ := step.breaks starts
      rw [inner_inside inside] at split
      rw [split] at breaks
      refine ⟨[], _, _, rfl, rfl, atLineEnd_iff.2 (.inr breaks), ?_⟩
      obtain ⟨d, before, rfl⟩ := List.exists_cons_of_ne_nil (step.taken_ne_nil inside split)
      rfl

theorem newMargin_of_margin (none : scan.margin = []) : scan.newMargin f = [] := by
  rw [newMargin, none, List.length_nil, zero, List.replicate_zero, ite_self]

end

/-- The blanks of a margin. -/
theorem isSpace_of_mem_margin {d : Char} (h : d ∈ scan.margin) : isSpace d = true := by
  unfold margin at h
  split at h
  · exact List.mem_takeWhile_imp h
  · cases h

section
variable (rising : StrictMono f) (zero : f 0 = 0)
include zero

/-- At the start of a logical line, a step goes as well in front of the text that is indented
anew. -/
theorem step_rescaled_line {taken rest' : List Char} {c' : Char} (starts : scan.lineStart = true)
    (stepped : scan.step c rest = .ok (tokens, next)) (inside : next.lineStart = false)
    (whole : scan.cursor.rest = scan.margin ++ (taken ++ next.cursor.rest)) :
    (scan.facing (scan.margin ++ (taken ++ next.rescaled f))).step c' rest' =
      .ok (tokens, next.facing (next.rescaled f)) := by
  obtain ⟨text, behind, line, tail, tail', left, rfl, ends, head⟩ := exists_rescaled zero next
  rw [newMargin_inside inside, List.nil_append] at behind
  rw [inner_inside inside] at left
  rw [left, ← List.append_assoc, ← List.append_assoc] at whole
  rw [behind, ← List.append_assoc, ← List.append_assoc]
  exact step_exchange_line (ends.exchanges head) (endsAlike_of_head? head _) starts whole
    (fun _ => by rw [head]) stepped left fun _ => ends

include rising

/-- No line feed comes to the front of the text, and none is lost there. -/
theorem feed_rescaled (scan : Scan) :
    (scan.rescaled f).head? = some '\n' ↔ scan.cursor.rest.head? = some '\n' := by
  obtain ⟨text, rescaled, shares⟩ := exists_rescaled zero scan
  rw [rescaled, ← scan.margin_append_inner]
  cases some : scan.margin with
  | nil => rw [newMargin_of_margin zero some, List.nil_append, List.nil_append, shares.head?_eq]
  | cons d more =>
    have mem : d ∈ scan.margin := by
      rw [some]
      exact List.mem_cons_self
    have blank := isSpace_of_mem_margin mem
    have starts : scan.lineStart = true := by
      by_contra inside
      rw [margin, if_neg inside] at some
      cases some
    have wide : 0 < f scan.margin.length := by
      rw [← zero, some]
      exact rising (Nat.succ_pos _)
    obtain ⟨width, wide⟩ := Nat.exists_eq_succ_of_ne_zero (Nat.ne_of_gt wide)
    rw [newMargin, if_pos starts, wide]
    simp only [List.replicate_succ, List.cons_append, List.head?_cons, Option.some_inj]
    constructor
    · rintro ⟨⟩
    · rintro rfl
      cases blank

/-- The end of a logical line, where the text behind it is indented anew. -/
theorem breakLine_rescaled {taken : List Char} (breaks : lineBreak scan.cursor.rest ≠ 0)
    (broken : scan.breakLine (lineBreak scan.cursor.rest) = (tokens, next))
    (split : scan.cursor.rest = taken ++ next.cursor.rest) :
    lineBreak (taken ++ next.rescaled f) = lineBreak scan.cursor.rest ∧
      (scan.facing (taken ++ next.rescaled f)).breakLine (lineBreak scan.cursor.rest) =
        (tokens, next.facing (next.rescaled f)) := by
  have left : next.cursor.rest = scan.cursor.rest.drop (lineBreak scan.cursor.rest) := by
    rw [← rest_breakLine, broken]
  have length : taken.length = lineBreak scan.cursor.rest := by
    have lengths := congrArg List.length left
    have le := lineBreak_le scan.cursor.rest
    have whole := congrArg List.length split
    rw [List.length_append] at whole
    rw [List.length_drop] at lengths
    omega
  have some : taken ≠ [] := by
    rintro rfl
    exact breaks length.symm
  refine ⟨?_, ?_⟩
  · rw [split]
    exact lineBreak_exchange (fun _ => feed_rescaled rising zero next) some
  · rw [breakLine_facing split (Nat.le_of_eq length.symm), broken, ← length, List.drop_length]
    rfl

/-- Inside of a line or at its end, a step goes as well in front of that text. -/
theorem step_rescaled_inside {taken : List Char} (inside : scan.lineStart = false)
    (here : scan.cursor.rest = c :: (taken ++ next.cursor.rest))
    (stepped : scan.step c (taken ++ next.cursor.rest) = .ok (tokens, next)) :
    (scan.facing (c :: (taken ++ next.rescaled f))).step c (taken ++ next.rescaled f) =
      .ok (tokens, next.facing (next.rescaled f)) := by
  cases again : next.lineStart with
  | true =>
    obtain ⟨-, breaks, broken⟩ := (step_ok here stepped).breaks again
    have split : scan.cursor.rest = (c :: taken) ++ next.cursor.rest := here
    obtain ⟨same, broken'⟩ := breakLine_rescaled rising zero breaks broken split
    rw [List.cons_append] at same broken'
    have inside' : (scan.facing (c :: (taken ++ next.rescaled f))).lineStart = false := inside
    have breaks' : lineBreak (c :: (taken ++ next.rescaled f)) ≠ 0 := same ▸ breaks
    rw [step_newline inside' breaks', same, broken']
  | false =>
    obtain ⟨text, behind, line, tail, tail', left, rfl, ends, head⟩ := exists_rescaled zero next
    rw [newMargin_inside again, List.nil_append] at behind
    rw [inner_inside again] at left
    rw [behind, ← List.append_assoc]
    have split : taken ++ next.cursor.rest = taken ++ line ++ tail := by
      rw [left, List.append_assoc]
    exact step_exchange_inside (ends.exchanges head) (endsAlike_of_head? head _) inside
      (here.trans (congrArg _ split)) (fun _ => by rw [head]) split stepped left

end

end Scan

end StylusToScss
