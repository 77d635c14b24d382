import Mathlib.Order.WellFounded
import StylusToScss.Proofs.Token.Copied
import StylusToScss.Proofs.Token.Lines
import StylusToScss.Proofs.Token.Lossless
import StylusToScss.Proofs.Token.Reindented

/-!
# The tokens of a source that is indented anew

If `f` keeps the order of the widths, the scanner cuts the same tokens from the source that is
indented anew, or fails on both (`Scan.Rescales.run`). The two runs go step by step: scans whose
levels have scaled widths cut the same tokens (`Scan.Widens`), and the second scan always stands in
front of the text that is indented anew (`Scan.Rescales`). Where a logical line starts, the offsets
behind its blanks and the columns of the line are moved further (`Move.widened`); everywhere else
the second scan stands where the first one is moved to.
-/

namespace StylusToScss

variable {f : Nat → Nat} {base move : Move}

/-! ## Moves -/

/-- Offsets and columns are only moved apart, and all lines are left. -/
structure Move.Spreads (move : Move) : Prop where
  offset : StrictMono move.offset
  lines : move.lines = 0
  column : ∀ line, StrictMono (move.column line)

theorem strictMono_widened {g : Nat → Nat} (h : StrictMono g) (start extra : Nat) :
    StrictMono fun n => g n + if n < start then 0 else extra := by
  intro a b less
  have := h less
  simp only
  split <;> split <;> omega

/-- Offsets from `start` on, and columns of `line`, are moved further by `extra`. -/
def Move.widened (base : Move) (spreads : base.Spreads) (start line extra : Nat) : Move where
  offset n := base.offset n + if n < start then 0 else extra
  lines := base.lines
  column l c := base.column l c + if l = line then extra else 0
  injective same := (strictMono_widened spreads.offset start extra).injective same

namespace Move

variable (spreads : base.Spreads) {start line extra : Nat}

theorem Spreads.widened : (base.widened spreads start line extra).Spreads where
  offset := strictMono_widened spreads.offset start extra
  lines := spreads.lines
  column l _ _ less := Nat.add_lt_add_right (spreads.column l less) _

theorem widened_front {n : Nat} (h : n < start) :
    (base.widened spreads start line extra).offset n = base.offset n := by
  show _ + (if _ then _ else _) = _
  rw [if_pos h, Nat.add_zero]

theorem widened_back (n : Nat) : (base.widened spreads start line extra).offset (start + n) =
    base.offset (start + n) + extra := by
  show _ + (if _ then _ else _) = _
  rw [if_neg (by omega)]

theorem widened_line (column : Nat) :
    (base.widened spreads start line extra).column line column =
      base.column line column + extra := by
  show _ + (if _ then _ else _) = _
  rw [if_pos rfl]

theorem widened_other {l : Nat} (h : l ≠ line) :
    (base.widened spreads start line extra).column l = base.column l := by
  funext column
  show _ + (if _ then _ else _) = _
  rw [if_neg h, Nat.add_zero]

end Move

/-! ## The start of a logical line -/

theorem byteLength_of_isSpace {text : List Char} (blank : ∀ c ∈ text, isSpace c = true) :
    byteLength text = text.length := by
  induction text with
  | nil => rfl
  | cons c text ih =>
    obtain ⟨first, blank⟩ := List.forall_mem_cons.1 blank
    have one : c.utf8Size = 1 := by
      rw [isSpace, Bool.or_eq_true, beq_iff_eq, beq_iff_eq] at first
      rcases first with rfl | rfl <;> rfl
    rw [byteLength, ih blank, one, List.length_cons, Nat.add_comm]

theorem spaces_append {text : List Char} {margin : List Char}
    (blank : ∀ c ∈ margin, isSpace c = true) (solid : ∀ c ∈ text.head?, isSpace c = false) :
    spaces (margin ++ text) = margin.length := by
  rw [spaces, List.takeWhile_append_of_pos blank, takeWhile_of_stops solid, List.append_nil]

namespace Cursor

variable {cursor cursor' : Cursor} {margin margin' text : List Char}

theorem behindSpaces_eq (here : cursor.rest = margin ++ text)
    (blank : ∀ c ∈ margin, isSpace c = true) (solid : ∀ c ∈ text.head?, isSpace c = false) :
    cursor.behindSpaces = ⟨margin.getLast?.or cursor.previous, text,
      cursor.offset + margin.length, cursor.line, cursor.column + margin.length⟩ := by
  rw [behindSpaces, here, spaces_append blank solid, along, here, List.take_left,
    List.drop_left, byteLength_of_isSpace blank]

/-- A hyphen may be the sign of a number behind blanks. -/
theorem signAllowed_of_isSpace {previous : Option Char} (blank : ∀ c ∈ margin, isSpace c = true)
    (some : margin ≠ []) : Lexeme.signAllowed (margin.getLast?.or previous) = true := by
  obtain ⟨c, last⟩ := Option.isSome_iff_exists.1 (List.getLast?_isSome.2 some)
  have first := blank c (List.mem_of_getLast? last)
  rw [last]
  rw [isSpace, Bool.or_eq_true, beq_iff_eq, beq_iff_eq] at first
  rcases first with rfl | rfl <;> rfl

/-- Behind the blanks of a logical line, offsets and columns are moved further by as much as the new
blanks are wider. -/
theorem Moved.widened (h : (cursor.facing cursor'.rest).Moved base cursor')
    (spreads : base.Spreads) (fresh : ∀ column, base.column cursor.line column = column)
    (here : cursor.rest = margin ++ text) (here' : cursor'.rest = margin' ++ text)
    (blank : ∀ c ∈ margin, isSpace c = true) (blank' : ∀ c ∈ margin', isSpace c = true)
    (solid : ∀ c ∈ text.head?, isSpace c = false) (wider : margin.length ≤ margin'.length)
    (none : margin = [] → margin' = []) :
    cursor.behindSpaces.Moved (base.widened spreads (cursor.offset + margin.length) cursor.line
      (margin'.length - margin.length)) cursor'.behindSpaces := by
  have offset : cursor'.offset = base.offset cursor.offset := h.offset
  have column : cursor'.column = cursor.column := h.column.trans (fresh _)
  have shifts (n : Nat) : base.offset (cursor.offset + n) = base.offset cursor.offset + n :=
    h.shifts n
  have back (n : Nat) : (base.widened spreads (cursor.offset + margin.length) cursor.line
      (margin'.length - margin.length)).offset (cursor.offset + margin.length + n) =
        cursor'.offset + margin'.length + n := by
    rw [Move.widened_back, Nat.add_assoc cursor.offset, shifts, offset]
    omega
  rw [behindSpaces_eq here blank solid, behindSpaces_eq here' blank' solid]
  refine ⟨rfl, (back 0).symm, fun n => ?_, h.line, ?_, fun n => ?_, fun line later column => ?_,
    fun rest starts number => ?_⟩
  · exact (back n).trans (congrArg (· + n) (back 0).symm)
  · show cursor'.column + margin'.length = Move.column _ cursor.line (cursor.column + margin.length)
    rw [Move.widened_line, fresh, column]
    omega
  · show Move.column _ cursor.line (cursor.column + margin.length + n) =
      Move.column _ cursor.line (cursor.column + margin.length) + n
    rw [Move.widened_line, Move.widened_line, fresh, fresh]
    omega
  · rw [Move.widened_other spreads (Nat.ne_of_gt later)]
    exact h.later line later column
  · by_cases empty : margin = []
    · rw [empty, none empty]
      rw [none empty] at here'
      exact h.sign rest (here'.trans starts) number
    · have empty' : margin' ≠ [] := by
        rintro rfl
        exact empty (List.length_eq_zero_iff.1 (Nat.le_zero.1 wider))
      exact (signAllowed_of_isSpace blank' empty').trans (signAllowed_of_isSpace blank empty).symm

end Cursor

/-! ## Steps -/

namespace Scan

variable {scan scan' next : Scan} {tokens : List Token} {c : Char} {rest : List Char}

/-- Inside of a line, no step reads the levels. -/
theorem step_levels (inside : scan.lineStart = false) (levels : List Nat) :
    { scan with levels := levels }.step c rest =
      (scan.step c rest).map fun cut => (cut.1, { cut.2 with levels := levels }) := by
  have inside' : { scan with levels := levels }.lineStart = false := inside
  cases front_cases c rest with
  | space blank =>
    rw [step_space inside blank, step_space inside' blank]
    rfl
  | newline breaks =>
    rw [step_newline inside breaks, step_newline inside' breaks, breakLine, breakLine]
    show Except.ok (if scan.parens = 0 then _ else _) = Except.map _ (.ok _)
    split <;> rfl
  | lineComment =>
    rw [step_lineComment inside, step_lineComment inside']
    rfl
  | blockComment =>
    rw [step_blockComment inside, step_blockComment inside']
    cases scan.cursor.blockComment <;> rfl
  | lexeme solid unbroken plain =>
    rw [step_lexeme_eq inside solid unbroken plain, step_lexeme_eq inside' solid unbroken plain]
    simp only
    cases lexeme scan.cursor.previous c rest <;> rfl

theorem levels_of_step (inside : scan.lineStart = false)
    (stepped : scan.step c rest = .ok (tokens, next)) : next.levels = scan.levels := by
  have same : scan.step c rest = _ := step_levels inside scan.levels
  rw [stepped] at same
  exact congrArg (·.2.levels) (Except.ok.inj same)

/-- The second scan stands where the first one is moved to, and the widths of its levels are
scaled. -/
structure Widens (f : Nat → Nat) (move : Move) (scan scan' : Scan) : Prop where
  cursor : scan.cursor.Moved move scan'.cursor
  levels : scan'.levels = scan.levels.map f
  parens : scan'.parens = scan.parens
  lineStart : scan'.lineStart = scan.lineStart

/-- The second step cuts the tokens of the first one where they are moved to, and leads to where
that one does; or both fail. -/
abbrev StepsWidened (f : Nat → Nat) (move : Move) :
    Except (Located LexFault) (List Token × Scan) →
      Except (Located LexFault) (List Token × Scan) → Prop :=
  Agree (fun cut cut' => cut'.1 = cut.1.map (·.moved move) ∧ cut.2.Widens f move cut'.2)
    fun _ _ => True

/-- A step inside of a line. -/
theorem Widens.step_inside (h : scan.Widens f move scan') (inside : scan.lineStart = false)
    (here : scan.cursor.rest = c :: rest) :
    StepsWidened f move (scan.step c rest) (scan'.step c rest) := by
  have inside' := h.lineStart.trans inside
  have aside : scan.Moved move { scan' with levels := scan.levels } :=
    ⟨h.cursor, rfl, h.parens, h.lineStart⟩
  have agree := aside.step here
  rw [step_levels inside'] at agree
  cases stepped : scan.step c rest with
  | error fault =>
    obtain ⟨fault', failed, -⟩ := agree.of_map.of_eq_error stepped
    rw [failed]
    trivial
  | ok cut =>
    obtain ⟨cut', stepped', moved, next⟩ := agree.of_map.of_eq_ok stepped
    rw [stepped']
    refine ⟨moved, next.cursor, ?_, next.parens, next.lineStart⟩
    rw [levels_of_step inside' stepped', levels_of_step inside stepped, h.levels]

/-- A step at the start of a logical line, behind blanks of scaled widths. -/
theorem step_widened (rising : StrictMono f) (zero : f 0 = 0) (starts : scan.lineStart = true)
    (starts' : scan'.lineStart = true)
    (behind : scan.cursor.behindSpaces.Moved move scan'.cursor.behindSpaces)
    (levels : scan'.levels = scan.levels.map f) (parens : scan'.parens = scan.parens)
    (width : spaces scan'.cursor.rest = f (spaces scan.cursor.rest)) (c' : Char)
    (rest' : List Char) : StepsWidened f move (scan.step c rest) (scan'.step c' rest') := by
  rw [step_line starts, step_line starts']
  refine (behind.indentation.mono (fun _ _ hf => hf) fun _ _ _ => trivial).bind
    fun first first' hf => ?_
  unfold startLine
  rw [hf.rest, levels, width]
  split
  · exact ⟨rfl, hf, rfl, parens, rfl⟩
  · simp only [reindent_map rising zero]
    cases reindent scan.levels (spaces scan.cursor.rest) with
    | none => trivial
    | some opened =>
      refine ⟨?_, hf, rfl, parens, rfl⟩
      rw [List.map_map]
      exact List.map_congr_left fun kind _ => hf.token kind 0

/-! ## Steps in front of the text that is indented anew -/

/-- The second scan stands in front of the text that is indented anew, where the first one is moved
to. Columns on the line of a margin have not been moved yet. -/
structure Rescales (f : Nat → Nat) (base : Move) (scan scan' : Scan) : Prop where
  widens : (scan.facing (scan.rescaled f)).Widens f base scan'
  fresh : scan.lineStart = true → ∀ column, base.column scan.cursor.line column = column
  spreads : base.Spreads

/-- The move behind the blanks that a logical line starts with. -/
def pastMargin (f : Nat → Nat) (scan : Scan) (spreads : base.Spreads) : Move :=
  base.widened spreads (scan.cursor.offset + scan.margin.length) scan.cursor.line
    (f scan.margin.length - scan.margin.length)

/-- The second move goes as far as the first one up to the scan. -/
structure Keeps (scan : Scan) (base move : Move) : Prop where
  offset : ∀ n ≤ scan.cursor.offset, move.offset n = base.offset n
  column : ∀ line, line + scan.lineStart.toNat ≤ scan.cursor.line →
    move.column line = base.column line

/-- The second step cuts the tokens of the first one where they are moved to by a move that goes on
from the one before, and leads to where the first one does; or both fail. -/
abbrev StepsRescaled (f : Nat → Nat) (scan : Scan) (base : Move) :
    Except (Located LexFault) (List Token × Scan) →
      Except (Located LexFault) (List Token × Scan) → Prop :=
  Agree (fun cut cut' => ∃ move, scan.Keeps base move ∧ cut'.1 = cut.1.map (·.moved move) ∧
    cut.2.Rescales f move cut'.2) fun _ _ => True

theorem keeps_pastMargin (zero : f 0 = 0) (spreads : base.Spreads)
    (starts : scan.lineStart = true) : scan.Keeps base (scan.pastMargin f spreads) where
  offset n before := by
    by_cases ahead : n < scan.cursor.offset + scan.margin.length
    · exact Move.widened_front spreads ahead
    · have none : scan.margin.length = 0 := by omega
      show base.offset n + (if _ then _ else f scan.margin.length - _) = _
      rw [none, zero, Nat.sub_zero, ite_self, Nat.add_zero]
  column line before := by
    rw [starts] at before
    exact Move.widened_other spreads (Nat.ne_of_lt before)

section
variable (rising : StrictMono f) (zero : f 0 = 0)
include rising zero

/-- A step inside of a line. -/
theorem Rescales.step_inside (h : scan.Rescales f base scan') (inside : scan.lineStart = false)
    (here : scan.cursor.rest = c :: rest) : ∃ rest', scan'.cursor.rest = c :: rest' ∧
      StepsRescaled f scan base (scan.step c rest) (scan'.step c rest') := by
  cases stepped : scan.step c rest with
  | error fault =>
    have same : scan.rescaled f = c :: rest := by
      rw [rescaled_failed here stepped, newMargin_inside inside, inner_inside inside, here]
      rfl
    have failed : (scan.facing (scan.rescaled f)).step c rest = .error fault := by
      rw [same, ← here]
      exact stepped
    obtain ⟨fault', failed', -⟩ := (h.widens.step_inside inside same).of_eq_error failed
    refine ⟨rest, h.widens.cursor.rest.trans same, ?_⟩
    rw [failed']
    trivial
  | ok cut =>
    obtain ⟨tokens, next⟩ := cut
    obtain ⟨taken, rfl, rescaled⟩ := rescaled_inside (f := f) inside here stepped
    have goes := step_rescaled_inside rising zero inside here stepped
    rw [← rescaled] at goes
    obtain ⟨⟨_, next'⟩, stepped', rfl, widens⟩ :=
      (h.widens.step_inside inside rescaled).of_eq_ok goes
    refine ⟨taken ++ next.rescaled f, h.widens.cursor.rest.trans rescaled, ?_⟩
    rw [stepped']
    refine ⟨base, ⟨fun _ _ => rfl, fun _ _ => rfl⟩, rfl, widens, fun starts column => ?_,
      h.spreads⟩
    have further := (step_ok here stepped).line_le.1
    rw [starts] at further
    exact h.widens.cursor.later _ further column

/-- Behind the start of a logical line, the second scan is moved further. -/
theorem Rescales.behindSpaces {text : List Char} (h : scan.Rescales f base scan')
    (starts : scan.lineStart = true) (rescaled : scan.rescaled f = scan.newMargin f ++ text)
    (shares : SharesLine scan.inner text) :
    (scan.cursor.facing (scan.margin ++ text)).behindSpaces.Moved (scan.pastMargin f h.spreads)
        scan'.cursor.behindSpaces ∧
      spaces scan'.cursor.rest = f (spaces (scan.margin ++ text)) := by
  have here' : scan'.cursor.rest = scan.newMargin f ++ text :=
    h.widens.cursor.rest.trans rescaled
  have margin' : scan.newMargin f = List.replicate (f scan.margin.length) ' ' := by
    rw [newMargin, if_pos starts]
  have length' : (scan.newMargin f).length = f scan.margin.length := by
    rw [margin', List.length_replicate]
  have blank : ∀ d ∈ scan.margin, isSpace d = true := fun _ => isSpace_of_mem_margin
  have blank' : ∀ d ∈ scan.newMargin f, isSpace d = true := by
    intro d hd
    rw [margin'] at hd
    rw [List.eq_of_mem_replicate hd]
    rfl
  have solid : ∀ d ∈ text.head?, isSpace d = false := by
    rw [shares.head?_eq]
    exact solid_inner starts
  have place : ((scan.cursor.facing (scan.margin ++ text)).facing scan'.cursor.rest).Moved base
      scan'.cursor := by
    rw [h.widens.cursor.rest]
    exact h.widens.cursor
  have moved := place.widened h.spreads (h.fresh starts) rfl here' blank blank' solid
    (length'.symm ▸ rising.le_apply) (newMargin_of_margin zero)
  rw [length'] at moved
  refine ⟨moved, ?_⟩
  rw [here', spaces_append blank' solid, spaces_append blank solid, length']

/-- The step at the start of a logical line. -/
theorem Rescales.step_margin (h : scan.Rescales f base scan') (starts : scan.lineStart = true)
    (here : scan.cursor.rest = c :: rest) (c' : Char) (rest' : List Char) :
    StepsRescaled f scan base (scan.step c rest) (scan'.step c' rest') := by
  obtain ⟨text, rescaled, shares⟩ := exists_rescaled zero scan
  obtain ⟨behind, width⟩ := h.behindSpaces rising zero starts rescaled shares
  have starts' : (scan.facing (scan.margin ++ text)).lineStart = true := starts
  have steps : StepsWidened f (scan.pastMargin f h.spreads)
      ((scan.facing (scan.margin ++ text)).step c rest) (scan'.step c' rest') :=
    step_widened rising zero starts' (h.widens.lineStart.trans starts) behind h.widens.levels
      h.widens.parens width c' rest'
  cases stepped : scan.step c rest with
  | error fault =>
    rw [rescaled_failed here stepped, List.append_cancel_left_eq] at rescaled
    have same : (scan.facing (scan.margin ++ text)).step c rest = .error fault := by
      rw [← rescaled, margin_append_inner]
      exact stepped
    obtain ⟨fault', failed, -⟩ := steps.of_eq_error same
    rw [failed]
    trivial
  | ok cut =>
    obtain ⟨tokens, next⟩ := cut
    obtain ⟨taken, split, rescaled'⟩ := rescaled_step (f := f) here stepped
    rw [rescaled', List.append_cancel_left_eq] at rescaled
    have inside := (step_ok here stepped).inside_of_starts starts
    have whole : scan.cursor.rest = scan.margin ++ (taken ++ next.cursor.rest) := by
      rw [← split, margin_append_inner]
    have goes : (scan.facing (scan.margin ++ text)).step c rest =
        .ok (tokens, next.facing (next.rescaled f)) := by
      rw [← rescaled]
      exact step_rescaled_line zero starts stepped inside whole
    obtain ⟨⟨_, next'⟩, stepped', rfl, widens⟩ := steps.of_eq_ok goes
    rw [stepped']
    exact ⟨_, keeps_pastMargin zero h.spreads starts, rfl, widens,
      fun again => absurd (inside.symm.trans again) nofun, h.spreads.widened⟩

theorem rescaled_ne_nil (some : scan.cursor.rest ≠ []) : scan.rescaled f ≠ [] := by
  obtain ⟨text, rescaled, shares⟩ := exists_rescaled zero scan
  intro none
  rw [none] at rescaled
  obtain ⟨narrow, rfl⟩ := List.append_eq_nil_iff.1 rescaled.symm
  have empty : scan.inner = [] := List.head?_eq_none_iff.1 shares.head?_eq.symm
  have split := scan.margin_append_inner
  rw [empty, List.append_nil] at split
  cases starts : scan.lineStart with
  | false =>
    rw [margin, starts] at split
    exact some split.symm
  | true =>
    rw [newMargin, if_pos starts, List.replicate_eq_nil_iff, ← zero] at narrow
    have widthless := rising.injective narrow
    exact some (split.symm.trans (List.length_eq_zero_iff.1 widthless))

theorem Rescales.step (h : scan.Rescales f base scan') (here : scan.cursor.rest = c :: rest) :
    ∃ c' rest', scan'.cursor.rest = c' :: rest' ∧
      StepsRescaled f scan base (scan.step c rest) (scan'.step c' rest') := by
  cases starts : scan.lineStart with
  | false =>
    obtain ⟨rest', here', steps⟩ := h.step_inside rising zero starts here
    exact ⟨c, rest', here', steps⟩
  | true =>
    have some : scan.cursor.rest ≠ [] := by simp [here]
    obtain ⟨c', rest', here'⟩ := List.exists_cons_of_ne_nil (rescaled_ne_nil rising zero some)
    exact ⟨c', rest', h.widens.cursor.rest.trans here',
      h.step_margin rising zero starts here c' rest'⟩

end

/-! ## Runs -/

/-- What is cut from the two scans on: the same tokens, moved as far as up to the scan and then
further, and the second source holds the same texts over them. -/
structure Alike (source source' : String) (base : Move) (scan : Scan) (move : Move)
    (tokens : List Token) : Prop where
  keeps : scan.Keeps base move
  spreads : move.Spreads
  copies : scan.Copies source source' move tokens

variable {source source' : String} {more : List Token}

/-- The tokens of a step are moved as far by a move that goes on from there. -/
theorem Keeps.map_moved (h : next.Keeps base move) (lines : move.lines = base.lines)
    (step : Step scan tokens next) : tokens.map (·.moved base) = tokens.map (·.moved move) := by
  refine List.map_congr_left fun token ht => ?_
  obtain ⟨starts, stops⟩ := step.spans_le token ht
  have line := step.line_le.2 token ht
  simp only [Token.moved, Span.moved, h.offset _ starts, h.offset _ stops, h.column _ line, lines]

theorem Alike.step {mid : Move} (h : next.Alike source source' mid move more)
    (keeps : scan.Keeps base mid) (step : Step scan tokens next)
    (same : scan.lineStart = false →
      SameSlice source source' move scan.cursor.offset next.cursor.offset) :
    scan.Alike source source' base move (tokens ++ more) where
  keeps.offset n before :=
    (h.keeps.offset n (Nat.le_trans before step.offset_le)).trans (keeps.offset n before)
  keeps.column line before := by
    have onward := step.line_le.1
    exact (h.keeps.column line (by omega)).trans (keeps.column line before)
  spreads := h.spreads
  copies := h.copies.step step same

/-- What a step takes inside of a line is the text that the second step takes. -/
theorem Rescales.sameSlice {mid : Move} {next' : Scan} {passed passed' before before' : List Char}
    (h : scan.Rescales f base scan') (h' : next.Rescales f mid next')
    (keeps : scan.Keeps base mid) (onward : next.Keeps mid move)
    (place : scan.cursor.Place source.toList before)
    (place' : scan'.cursor.Place source'.toList before')
    (behind : next.cursor.Place source.toList passed)
    (behind' : next'.cursor.Place source'.toList passed') (here : scan.cursor.rest = c :: rest)
    (stepped : scan.step c rest = .ok (tokens, next)) (inside : scan.lineStart = false) :
    SameSlice source source' move scan.cursor.offset next.cursor.offset := by
  obtain ⟨taken, split, rescaled⟩ := rescaled_step (f := f) here stepped
  rw [inner_inside inside] at split
  rw [newMargin_inside inside, List.nil_append] at rescaled
  have split' : scan'.cursor.rest = taken ++ next'.cursor.rest := by
    rw [h'.widens.cursor.rest]
    exact h.widens.cursor.rest.trans rescaled
  have start : move.offset scan.cursor.offset = scan'.cursor.offset :=
    (onward.offset _ (step_ok here stepped).offset_le).trans
      ((keeps.offset _ (Nat.le_refl _)).trans h.widens.cursor.offset.symm)
  have stop : move.offset next.cursor.offset = next'.cursor.offset :=
    (onward.offset _ (Nat.le_refl _)).trans h'.widens.cursor.offset.symm
  refine ⟨_, place.slice? behind split, ?_⟩
  rw [start, stop]
  exact place'.slice? behind' split'

theorem Rescales.closing (h : scan.Rescales f base scan') :
    scan'.closing = scan.closing.map (·.moved base) := by
  have token (kind : Kind) :
      scan'.cursor.token kind 0 = (scan.cursor.token kind 0).moved base :=
    h.widens.cursor.token kind 0
  have levels : scan'.levels = scan.levels.map f := h.widens.levels
  unfold Scan.closing
  rw [List.map_append, List.map_replicate, levels, List.length_map, token, token]
  rfl

/-- From the text that is indented anew, the scanner cuts the tokens of the text where they have
been moved to, or it fails on both. -/
theorem Rescales.run (rising : StrictMono f) (zero : f 0 = 0) (h : scan.Rescales f base scan')
    (place : ∃ passed, scan.cursor.Place source.toList passed)
    (place' : ∃ passed, scan'.cursor.Place source'.toList passed) (cut cut' : List Token) :
    Agree (fun tokens tokens' => ∃ move more, scan.Alike source source' base move more ∧
        tokens = cut.reverse ++ more ∧ tokens' = cut'.reverse ++ more.map (·.moved move))
      (fun _ _ => True) (scan.run cut) (scan'.run cut') := by
  fun_induction Scan.run scan cut generalizing base scan' cut' with
  | case1 scan cut ended =>
    rw [run_done cut' (h.widens.cursor.rest.trans (rescaled_done ended)), h.closing]
    exact ⟨base, scan.closing, ⟨⟨fun _ _ => rfl, fun _ _ => rfl⟩, h.spreads, .closing scan⟩, rfl,
      rfl⟩
  | case2 scan cut c rest here fault failed =>
    obtain ⟨c', rest', here', steps⟩ := h.step rising zero here
    obtain ⟨fault', failed', -⟩ := steps.of_eq_error failed
    rw [run_failed cut' here' failed']
    trivial
  | case3 scan cut c rest here tokens next stepped ih =>
    obtain ⟨c', rest', here', steps⟩ := h.step rising zero here
    obtain ⟨⟨_, next'⟩, stepped', mid, keeps, rfl, rescales⟩ := steps.of_eq_ok stepped
    have step := step_ok here stepped
    obtain ⟨before, place⟩ := place
    obtain ⟨before', place'⟩ := place'
    obtain ⟨passed, behind⟩ := step.place place
    obtain ⟨passed', behind'⟩ := (step_ok here' stepped').place place'
    rw [run_step cut' here' stepped']
    refine (ih rescales ⟨_, behind⟩ ⟨_, behind'⟩ _).mono ?_ fun _ _ _ => trivial
    rintro _ _ ⟨move, more, alike, rfl, rfl⟩
    have same := h.sameSlice rescales keeps alike.keeps place place' behind behind' here stepped
    refine ⟨move, tokens ++ more, alike.step keeps step same, by simp, ?_⟩
    rw [alike.keeps.map_moved (alike.spreads.lines.trans rescales.spreads.lines.symm) step]
    simp

end Scan

/-! ## The whole source -/

theorem Move.spreads_none : Move.none.Spreads :=
  ⟨strictMono_id, rfl, fun _ => strictMono_id⟩

theorem Scan.rescales_start (f : Nat → Nat) (source : String) :
    (start source.toList).Rescales f .none (start (rescale f source).toList) where
  widens.cursor := {
    rest := String.toList_ofList
    offset := rfl
    shifts := fun _ => rfl
    line := rfl
    column := rfl
    shiftsLine := fun _ => rfl
    later := fun _ _ _ => rfl
    sign := fun _ _ _ => rfl }
  widens.levels := rfl
  widens.parens := rfl
  widens.lineStart := rfl
  fresh := fun _ _ => rfl
  spreads := Move.spreads_none

/-- A source and the one that is indented anew are cut into the same tokens, or neither is cut. -/
theorem agree_tokenize_rescaled (rising : StrictMono f) (zero : f 0 = 0) (source : String) :
    Agree (fun tokens tokens' => ∃ move : Move, move.Spreads ∧
        tokens' = tokens.map (·.moved move) ∧ SameTexts source (rescale f source) move tokens)
      (fun _ _ => True) (tokenize source) (tokenize (rescale f source)) := by
  have place (source : String) : ∃ passed,
      (Scan.start source.toList).cursor.Place source.toList passed := ⟨[], rfl, rfl, rfl⟩
  refine ((Scan.rescales_start f source).run rising zero (place source)
    (place (rescale f source)) [] []).mono ?_ fun _ _ _ => trivial
  rintro _ _ ⟨move, more, alike, rfl, rfl⟩
  exact ⟨move, alike.spreads, rfl, alike.copies.within⟩

end StylusToScss
