import Mathlib.Data.List.Induction
import StylusToScss.Proofs.Slice
import StylusToScss.Proofs.Token.Spelling
import StylusToScss.Proofs.Token.Steps

/-!
# The levels of a token list

The scanner's list of open levels does not show in the tokens; `Indent` and `Dedent` stand for it.
`openIndents` reads it off the tokens again, and `Scan.Leveled` ties the two together at every scan
that is reached: an open level is the width of the line that its `Indent` opens. What the tokens of
a whole source promise is `Layered` (`tokenize_layered`).
-/

namespace StylusToScss

/-! ## What the tokens say -/

/-- The `Indent` tokens that are open behind tokens given latest first, innermost first: each one
is named by the number of tokens before it. -/
def openBehind : List Token → List Nat
  | [] => []
  | token :: earlier =>
    match token.kind with
    | .indent => earlier.length :: openBehind earlier
    | .dedent => (openBehind earlier).tail
    | _ => openBehind earlier

/-- The `Indent` tokens that are open behind the tokens, innermost first. -/
def openIndents (tokens : List Token) : List Nat := openBehind tokens.reverse

/-- The parentheses that are open behind the tokens. A closing one without a partner counts for
nothing. -/
def openParens (tokens : List Token) : Nat :=
  tokens.foldl (fun parens token => Scan.parensAfter parens token.kind) 0

/-- Where the logical line behind the tokens starts: at the end of their last line break. -/
def lineOffset (tokens : List Token) : Nat :=
  tokens.foldl (fun offset token => if token.kind = .newline then token.span.stop else offset) 0

/-- The number of blanks in front of the logical line behind the tokens. -/
def indentWidth? (source : String) (tokens : List Token) : Option Nat :=
  (slice? source (lineOffset tokens) source.utf8ByteSize).map fun text => spaces text.toList

/-- The tokens end with a line break, or there are none. -/
def AtLineStart (tokens : List Token) : Prop := ∀ token ∈ tokens.getLast?, token.kind = .newline

/-- What comes behind the tokens is the first thing on its logical line: behind the last line break
stand only tokens that open and close levels. -/
def StartsLine (tokens : List Token) : Prop :=
  ∃ earlier marks, tokens = earlier ++ marks ∧ AtLineStart earlier ∧
    ∀ token ∈ marks, token.kind = .indent ∨ token.kind = .dedent

/-- The tokens of a source are layered: they end the input once; levels are closed only where they
are open, and all of them are in the end; lines end and levels open and close outside parentheses
only, but for the closing of what is left at the end; a level opens at the start of a line. The
first tokens of two lines tell how wide their indentations are: equally wide where the same levels
are open, and wider where some more are. -/
structure Layered (source : String) (tokens : List Token) : Prop where
  ends : ∃ body last, tokens = body ++ [last] ∧ last.kind = .endOfInput ∧
    ∀ token ∈ body, token.kind ≠ .endOfInput
  nested : ∀ before after, tokens = before ++ after →
    before.countP (·.kind = .dedent) ≤ before.countP (·.kind = .indent)
  closed : tokens.countP (·.kind = .dedent) = tokens.countP (·.kind = .indent)
  outside : ∀ before token after, tokens = before ++ token :: after →
    token.kind = .newline ∨ token.kind = .indent ∨ token.kind = .dedent ∧
      (∃ later ∈ after, later.kind ≠ .dedent ∧ later.kind ≠ .endOfInput) →
    openParens before = 0
  opens : ∀ before token after, tokens = before ++ token :: after → token.kind = .indent →
    AtLineStart before
  widths : ∀ before token after before' token' after', tokens = before ++ token :: after →
    tokens = before' ++ token' :: after' → token.kind.endsLine = false →
    token'.kind.endsLine = false → StartsLine before → StartsLine before' →
    ∃ width width', indentWidth? source before = some width ∧
      indentWidth? source before' = some width' ∧
      (openIndents before = openIndents before' → width = width') ∧
      (openIndents before <:+ openIndents before' → openIndents before ≠ openIndents before' →
        width < width')

/-! ## One token more -/

section
variable {source : String} {before : List Token} {token : Token}

@[simp] theorem openParens_snoc :
    openParens (before ++ [token]) = Scan.parensAfter (openParens before) token.kind := by
  simp [openParens]

@[simp] theorem lineOffset_snoc : lineOffset (before ++ [token]) =
    if token.kind = .newline then token.span.stop else lineOffset before := by
  simp [lineOffset]

theorem openIndents_indent (h : token.kind = .indent) :
    openIndents (before ++ [token]) = before.length :: openIndents before := by
  simp [openIndents, openBehind, h]

theorem openIndents_dedent (h : token.kind = .dedent) :
    openIndents (before ++ [token]) = (openIndents before).tail := by
  simp [openIndents, openBehind, h]

theorem openIndents_other (hi : token.kind ≠ .indent) (hd : token.kind ≠ .dedent) :
    openIndents (before ++ [token]) = openIndents before := by
  simp only [openIndents, List.reverse_append, List.reverse_cons, List.reverse_nil, List.nil_append,
    List.singleton_append]
  rw [openBehind]
  split
  · next indent => exact absurd indent hi
  · next dedent => exact absurd dedent hd
  · rfl

/-- An open `Indent` stands among the tokens. -/
theorem lt_of_mem_openIndents {i : Nat} (h : i ∈ openIndents before) : i < before.length := by
  induction before using List.reverseRecOn with
  | nil => cases h
  | append_singleton before token ih =>
    rw [List.length_append, List.length_singleton]
    by_cases hi : token.kind = .indent
    · rw [openIndents_indent hi, List.mem_cons] at h
      rcases h with rfl | h
      · omega
      · have := ih h
        omega
    · by_cases hd : token.kind = .dedent
      · rw [openIndents_dedent hd] at h
        have := ih (List.mem_of_mem_tail h)
        omega
      · rw [openIndents_other hi hd] at h
        have := ih h
        omega

end

/-- Tokens that close levels close the innermost ones, and change nothing else. -/
theorem openIndents_dedents (before : List Token) {dedents : List Token}
    (h : ∀ token ∈ dedents, token.kind = .dedent) :
    openIndents (before ++ dedents) = (openIndents before).drop dedents.length ∧
      openParens (before ++ dedents) = openParens before ∧
      lineOffset (before ++ dedents) = lineOffset before := by
  induction dedents using List.reverseRecOn with
  | nil => simp
  | append_singleton dedents token ih =>
    obtain ⟨indents, parens, offset⟩ := ih fun t ht => h t (List.mem_append_left _ ht)
    have dedent : token.kind = .dedent := h token (by simp)
    rw [← List.append_assoc]
    refine ⟨?_, ?_, ?_⟩
    · rw [openIndents_dedent dedent, indents, List.tail_drop, List.length_append,
        List.length_singleton]
    · rw [openParens_snoc, dedent, parens]
      rfl
    · rw [lineOffset_snoc, dedent, offset]
      rfl

/-- Where levels are closed only if some are open, the open levels are those opened less those
closed, behind every part of the tokens. -/
theorem length_openIndents {tokens before after : List Token} (split : tokens = before ++ after)
    (h : ∀ first token rest, tokens = first ++ token :: rest → token.kind = .dedent →
      openIndents first ≠ []) :
    (openIndents before).length + before.countP (·.kind = .dedent) =
      before.countP (·.kind = .indent) := by
  induction before using List.reverseRecOn generalizing after with
  | nil => rfl
  | append_singleton before token ih =>
    have split' : tokens = before ++ token :: after := by simpa using split
    have previous := ih split'
    rw [List.countP_append, List.countP_append, List.countP_singleton, List.countP_singleton]
    by_cases hi : token.kind = .indent
    · rw [openIndents_indent hi]
      simp [hi]
      omega
    · by_cases hd : token.kind = .dedent
      · have := List.length_pos_iff.2 (h before token after split' hd)
        rw [openIndents_dedent hd, List.length_tail]
        simp [hd]
        omega
      · rw [openIndents_other hi hd]
        simpa [hi, hd] using previous

/-! ## The levels of a scan -/

/-- A character that does not break the line starts no line break. -/
theorem lineBreak_cons {c : Char} {rest : List Char} (feed : c ≠ '\n') (ret : c ≠ '\r') :
    lineBreak (c :: rest) = 0 := by
  unfold lineBreak
  split
  · next eq => exact absurd (List.cons.inj eq).1 ret
  · next eq => exact absurd (List.cons.inj eq).1 ret
  · next eq => exact absurd (List.cons.inj eq).1 feed
  · rfl

/-- A lexeme is neither a line break, nor does it open or close a level or end the input. -/
theorem endsLine_lexeme {previous : Option Char} {c : Char} {rest : List Char} {item : Lexeme}
    (h : lexeme previous c rest = .ok item) (solid : lineBreak (c :: rest) = 0) :
    item.kind.endsLine = false := by
  have ⟨starts, spelled⟩ := lexeme_frontOf h
  have some := item.spelling_ne_nil
  cases kind : item.kind with
  | indent | dedent | endOfInput =>
    rw [kind] at spelled
    exact absurd spelled some
  | newline =>
    rw [kind] at spelled
    rcases spelled with text | text <;> rw [text] at starts <;>
      obtain ⟨_, here⟩ := starts <;> cases here
    · cases solid
    · unfold lineBreak at solid
      split at solid <;> simp_all
  | _ => rfl

namespace Scan

/-- There is nothing left of the line. -/
def LineOver (scan : Scan) : Prop :=
  (scan.cursor.rest = [] ∨ lineBreak scan.cursor.rest ≠ 0) ∧ scan.parens = 0

/-- The levels of a scan are the widths of the lines that the open `Indent` tokens before it start,
each wider than the one around it. Where a logical line starts, no parenthesis is open; in front of
the first lexeme of a line, the innermost level is its width, unless there is no lexeme on it. -/
structure Leveled (source : String) (before : List Token) (scan : Scan) : Prop where
  parens : scan.parens = openParens before
  levels : scan.levels.map some =
    (openIndents before).map fun i => indentWidth? source (before.take i)
  descending : (scan.levels ++ [0]).Pairwise (· > ·)
  starting : scan.lineStart = true →
    AtLineStart before ∧ scan.parens = 0 ∧ scan.cursor.offset = lineOffset before
  inside : scan.lineStart = false → StartsLine before →
    scan.LineOver ∨ indentWidth? source before = some (scan.levels.headD 0)

variable {source : String} {before tokens : List Token} {scan next : Scan}

theorem leveled_start : Leveled source [] (.start source.toList) where
  parens := rfl
  levels := rfl
  descending := List.pairwise_singleton _ _
  starting _ := ⟨nofun, rfl, rfl⟩
  inside := nofun

/-- A step inside a line that cuts no token. -/
theorem Leveled.skip {cursor : Cursor} (h : Leveled source before scan)
    (inside : scan.lineStart = false) (more : ¬ scan.LineOver) :
    Leveled source before { scan with cursor := cursor } where
  parens := h.parens
  levels := h.levels
  descending := h.descending
  starting starts := absurd (inside.symm.trans starts) nofun
  inside _ first := .inr ((h.inside inside first).resolve_left more)

/-- The widths that the open levels stand for do not change behind more tokens. -/
theorem map_take_append {α : Type} (f : List Token → α) (before more : List Token) :
    (openIndents before).map (fun i => f ((before ++ more).take i)) =
      (openIndents before).map fun i => f (before.take i) := by
  apply List.map_congr_left
  intro i hi
  rw [List.take_append_of_le_length (Nat.le_of_lt (lt_of_mem_openIndents hi))]

/-- A line break outside parentheses. -/
theorem Leveled.newline {n : Nat} (h : Leveled source before scan) (outside : scan.parens = 0) :
    Leveled source (before ++ [scan.cursor.breakToken n])
      { scan with cursor := scan.cursor.nextLine n, lineStart := true } where
  parens := by
    rw [openParens_snoc, ← h.parens]
    rfl
  levels := by
    rw [openIndents_other (show Kind.newline ≠ .indent by decide)
      (show Kind.newline ≠ .dedent by decide), map_take_append (indentWidth? source), h.levels]
  descending := h.descending
  starting _ := by
    refine ⟨?_, outside, by rw [lineOffset_snoc]; rfl⟩
    intro token last
    rw [List.getLast?_concat] at last
    cases last
    rfl
  inside := nofun

/-- A lexeme is not the first thing on the line behind it. -/
theorem not_startsLine_snoc {token : Token} (h : token.kind.endsLine = false) :
    ¬ StartsLine (before ++ [token]) := by
  rintro ⟨earlier, marks, split, starts, isMark⟩
  rcases List.eq_nil_or_concat marks with rfl | ⟨marks, mark, rfl⟩
  · rw [List.append_nil] at split
    have := starts token (by rw [← split, List.getLast?_concat]; rfl)
    rw [this] at h
    cases h
  · rw [List.concat_eq_append, ← List.append_assoc] at split
    obtain ⟨-, last⟩ := List.append_inj' split rfl
    cases last
    rcases isMark token (by simp) with kind | kind <;> rw [kind] at h <;> cases h

/-- A lexeme, which neither ends a line nor opens or closes a level. -/
theorem Leveled.lexeme {token : Token} {cursor : Cursor} (h : Leveled source before scan)
    (inside : scan.lineStart = false) (content : token.kind.endsLine = false) :
    Leveled source (before ++ [token])
      { scan with cursor := cursor, parens := parensAfter scan.parens token.kind } where
  parens := by rw [openParens_snoc, ← h.parens]
  levels := by
    rw [openIndents_other (fun kind => by rw [kind] at content; cases content)
      (fun kind => by rw [kind] at content; cases content),
      map_take_append (indentWidth? source), h.levels]
  descending := h.descending
  starting starts := absurd (inside.symm.trans starts) nofun
  inside _ first := absurd first (not_startsLine_snoc content)

/-- The width of a line is the number of blanks where it starts. -/
theorem Leveled.width {passed : List Char} (h : Leveled source before scan)
    (place : scan.cursor.Place source.toList passed) (starts : scan.lineStart = true) :
    indentWidth? source before = some (spaces scan.cursor.rest) := by
  have offset := (h.starting starts).2.2
  have slice := slice?_eq_some (c := []) (by rw [List.append_nil]; exact place.split)
  rw [indentWidth?, ← offset, place.offset, utf8ByteSize_eq_byteLength, place.split,
    byteLength_append, slice, Option.map_some, String.toList_ofList]

/-- A line that is wider than the innermost level opens one. -/
theorem Leveled.indent {passed : List Char} {token : Token} {cursor : Cursor}
    (h : Leveled source before scan) (place : scan.cursor.Place source.toList passed)
    (starts : scan.lineStart = true) (kind : token.kind = .indent)
    (wider : scan.levels.headD 0 < spaces scan.cursor.rest) :
    Leveled source (before ++ [token])
      { scan with
        cursor := cursor, levels := spaces scan.cursor.rest :: scan.levels,
        lineStart := false } where
  parens := by
    rw [openParens_snoc, kind]
    exact h.parens
  levels := by
    rw [openIndents_indent kind, List.map_cons, List.map_cons,
      map_take_append (indentWidth? source), h.levels, List.take_left, h.width place starts]
  descending := by
    rw [List.cons_append, List.pairwise_cons]
    refine ⟨?_, h.descending⟩
    intro level hl
    have sorted := h.descending
    cases levels : scan.levels with
    | nil =>
      rw [levels] at hl wider
      rw [List.nil_append, List.mem_singleton] at hl
      exact hl ▸ wider
    | cons inner outer =>
      rw [levels] at hl wider sorted
      rw [List.cons_append, List.mem_cons] at hl
      rcases hl with rfl | hl
      · exact wider
      · exact Nat.lt_trans ((List.pairwise_cons.1 sorted).1 level hl) wider
  starting := nofun
  inside _ _ := by
    rw [indentWidth?, lineOffset_snoc, kind]
    exact .inr (h.width place starts)

/-- A line that meets an open level closes those that are wider. -/
theorem Leveled.dedents {passed : List Char} {dedents : List Token} {cursor : Cursor}
    {kept : List Nat} (h : Leveled source before scan)
    (place : scan.cursor.Place source.toList passed) (starts : scan.lineStart = true)
    (kinds : ∀ token ∈ dedents, token.kind = .dedent)
    (closed : kept = scan.levels.drop dedents.length)
    (meets : kept.headD 0 = spaces scan.cursor.rest) :
    Leveled source (before ++ dedents)
      { scan with cursor := cursor, levels := kept, lineStart := false } := by
  obtain ⟨indents, parens, offset⟩ := openIndents_dedents before kinds
  refine ⟨?_, ?_, ?_, nofun, fun _ _ => .inr ?_⟩
  · rw [parens]
    exact h.parens
  · rw [indents, List.map_drop, map_take_append (indentWidth? source), ← h.levels, ← List.map_drop,
      closed]
  · refine h.descending.sublist ?_
    rw [closed]
    exact (List.drop_sublist _ _).append_right _
  · rw [indentWidth?, offset, meets]
    exact h.width place starts

/-- The start of a line. -/
theorem Leveled.line {passed : List Char} {first : Cursor} (h : Leveled source before scan)
    (place : scan.cursor.Place source.toList passed) (starts : scan.lineStart = true)
    (opened : scan.startLine first = .ok (tokens, next)) :
    Leveled source (before ++ tokens) next := by
  cases startLine_ok opened with
  | empty ended =>
    rw [List.append_nil]
    have outside := (h.starting starts).2.1
    exact ⟨h.parens, h.levels, h.descending, nofun, fun _ _ => .inl ⟨ended, outside⟩⟩
  | indent wider => exact h.indent place starts rfl wider
  | dedents _ meets =>
    refine h.dedents place starts (fun token ht => ?_) (by rw [List.length_replicate]) meets
    rw [List.eq_of_mem_replicate ht]
    rfl

theorem Leveled.step {passed : List Char} (h : Leveled source before scan)
    (place : scan.cursor.Place source.toList passed) (step : Step scan tokens next) :
    Leveled source (before ++ tokens) next := by
  cases step with
  | line starts _ opened => exact h.line place starts opened
  | @space c rest here inside blank =>
    rw [List.append_nil]
    apply h.skip inside
    intro ended
    rcases ended.1 with none | breaks
    · rw [here] at none
      cases none
    · rw [here] at breaks
      refine breaks (lineBreak_cons ?_ ?_) <;> rintro rfl <;> cases blank
  | newline inside breaks broken =>
    rcases breakLine_cases broken with ⟨outside, rfl, rfl⟩ | ⟨enclosed, rfl, rfl⟩
    · exact h.newline outside
    · rw [List.append_nil]
      exact h.skip inside fun ended => enclosed ended.2
  | commentLine here inside =>
    rw [List.append_nil]
    apply h.skip inside
    intro ended
    rw [LineOver, here] at ended
    exact ended.1.elim nofun (absurd (lineBreak_cons (by decide) (by decide)))
  | commentBlock here inside =>
    rw [List.append_nil]
    apply h.skip inside
    intro ended
    rw [LineOver, here] at ended
    exact ended.1.elim nofun (absurd (lineBreak_cons (by decide) (by decide)))
  | lexeme _ inside solid read => exact h.lexeme inside (endsLine_lexeme read solid.2)

theorem Reached.leveled (h : Reached source.toList before scan) : Leveled source before scan := by
  induction h with
  | start => exact leveled_start
  | step reached _ step ih =>
    obtain ⟨passed, place⟩ := reached.place
    exact ih.step place step

end Scan

/-! ## Where tokens stand -/

/-- What is known where a token stands between others: a level is only closed where one is open, and
the first lexeme of a line is as wide as the innermost level. -/
inductive Standing (source : String) (before : List Token) (token : Token) (after : List Token) :
    Prop
  | newline (kind : token.kind = .newline) (outside : openParens before = 0)
  | indent (kind : token.kind = .indent) (outside : openParens before = 0)
      (opens : AtLineStart before)
  | dedent (kind : token.kind = .dedent) (outside : openParens before = 0)
      (inside : openIndents before ≠ [])
  | lexeme {levels : List Nat} (content : token.kind.endsLine = false)
      (opened : levels.map some =
        (openIndents before).map fun i => indentWidth? source (before.take i))
      (descending : (levels ++ [0]).Pairwise (· > ·))
      (width : StartsLine before → indentWidth? source before = some (levels.headD 0))
  | closing (kind : token.kind = .dedent) (inside : openIndents before ≠ [])
      (left : ∀ later ∈ after, later.kind = .dedent ∨ later.kind = .endOfInput)
  | last (kind : token.kind = .endOfInput) (ended : after = [])

namespace Scan

variable {source : String} {before tokens ahead behind after : List Token} {token : Token}
  {scan next : Scan}

/-- The levels that as many tokens close as are open are open in front of each of these tokens. -/
theorem Leveled.openIndents_ne_nil (h : Leveled source before scan)
    (kinds : ∀ token ∈ ahead, token.kind = .dedent) (fewer : ahead.length < scan.levels.length) :
    openIndents (before ++ ahead) ≠ [] := by
  have same := congrArg List.length h.levels
  rw [List.length_map, List.length_map] at same
  rw [(openIndents_dedents before kinds).1]
  intro none
  have := List.drop_eq_nil_iff.1 none
  omega

theorem Leveled.standing_startLine {first : Cursor} (h : Leveled source before scan)
    (starts : scan.lineStart = true)
    (opened : scan.startLine first = .ok (ahead ++ token :: behind, next)) :
    Standing source (before ++ ahead) token after := by
  have ⟨opens, outside, _⟩ := h.starting starts
  rw [h.parens] at outside
  generalize cut : ahead ++ token :: behind = tokens at opened
  cases startLine_ok opened with
  | empty => simp at cut
  | indent =>
    obtain ⟨rfl, rest⟩ | ⟨-, none⟩ := List.append_eq_singleton_iff.1 cut
    · cases rest
      rw [List.append_nil]
      exact .indent rfl outside opens
    · cases none
  | @dedents closed fewer =>
    have dedents : ∀ t ∈ ahead ++ token :: behind, t.kind = .dedent := by
      intro t ht
      rw [cut] at ht
      rw [List.eq_of_mem_replicate ht]
      rfl
    have count := congrArg List.length cut
    rw [List.length_replicate, List.length_append, List.length_cons] at count
    have front : ∀ t ∈ ahead, t.kind = .dedent := fun t ht =>
      dedents t (List.mem_append_left _ ht)
    refine .dedent (dedents token (by simp)) ?_ (h.openIndents_ne_nil front (by omega))
    rw [(openIndents_dedents before front).2.1, outside]

theorem Leveled.standing (h : Leveled source before scan)
    (step : Step scan (ahead ++ token :: behind) next) :
    Standing source (before ++ ahead) token after := by
  generalize cut : ahead ++ token :: behind = tokens at step
  cases step with
  | line starts _ opened => exact h.standing_startLine starts (cut ▸ opened)
  | newline _ _ broken =>
    rcases breakLine_cases broken with ⟨outside, rfl, -⟩ | ⟨-, rfl, -⟩
    · obtain ⟨rfl, rest⟩ | ⟨-, none⟩ := List.append_eq_singleton_iff.1 cut
      · cases rest
        rw [List.append_nil]
        exact .newline rfl (h.parens ▸ outside)
      · cases none
    · simp at cut
  | lexeme here inside solid read =>
    obtain ⟨rfl, rest⟩ | ⟨-, none⟩ := List.append_eq_singleton_iff.1 cut
    · cases rest
      rw [List.append_nil]
      refine .lexeme (endsLine_lexeme read solid.2) h.levels h.descending fun first => ?_
      refine (h.inside inside first).resolve_left fun ended => ?_
      rcases ended.1 with none | breaks
      · rw [here] at none
        cases none
      · exact breaks (here ▸ solid.2)
    · cases none
  | space | commentLine | commentBlock => simp at cut

theorem Leveled.standing_closing (h : Leveled source before scan)
    (cut : scan.closing = ahead ++ token :: after) :
    Standing source (before ++ ahead) token after := by
  unfold closing at cut
  generalize mark : scan.cursor.token .dedent 0 = dedent at cut
  rcases List.append_eq_append_iff.1 cut with ⟨rest, -, eof⟩ | ⟨rest, dedents, eof⟩
  · obtain ⟨-, rest⟩ | ⟨-, none⟩ := List.singleton_eq_append_iff.1 eof
    · cases rest
      exact .last rfl rfl
    · cases none
  · cases rest with
    | nil =>
      cases eof
      exact .last rfl rfl
    | cons t rest =>
      cases eof
      have same : ∀ t ∈ ahead ++ token :: rest, t.kind = .dedent := by
        rw [← dedents]
        intro t ht
        rw [List.eq_of_mem_replicate ht, ← mark]
        rfl
      have count := congrArg List.length dedents
      rw [List.length_replicate, List.length_append, List.length_cons] at count
      refine .closing (same token (by simp)) (h.openIndents_ne_nil
        (fun t ht => same t (List.mem_append_left _ ht)) (by omega)) fun later hl => ?_
      rcases List.mem_append.1 hl with hl | hl
      · exact .inl (same later (by simp [hl]))
      · rw [List.mem_singleton.1 hl]
        exact .inr rfl

/-- Every token of a source stands as it should. -/
theorem standing_of_tokenize (h : tokenize source = .ok tokens)
    (split : tokens = before ++ token :: after) : Standing source before token after := by
  obtain ⟨front, last, comes, -, rfl⟩ := Comes.of_tokenize h
  have leveled := comes.reached.leveled
  rcases List.append_eq_append_iff.1 split with ⟨ahead, rfl, cut⟩ | ⟨inside, rfl, cut⟩
  · exact leveled.standing_closing cut
  · cases inside with
    | nil =>
      have closed := leveled.standing_closing (cut.symm.trans (List.nil_append _).symm)
      simpa using closed
    | cons t inside =>
      cases cut
      obtain ⟨earlier, ahead, behind, from_, next, c, text, rfl, comes, here, step⟩ :=
        comes.cuts rfl
      exact comes.reached.leveled.standing (step_ok here step)

/-- The last token ends the input, and no level is open there. -/
theorem last_of_tokenize (h : tokenize source = .ok tokens) :
    ∃ body last, tokens = body ++ [last] ∧ last.kind = .endOfInput ∧ openIndents tokens = [] := by
  obtain ⟨front, last, comes, -, rfl⟩ := Comes.of_tokenize h
  refine ⟨front ++ List.replicate last.levels.length (last.cursor.token .dedent 0), _,
    (List.append_assoc ..).symm, rfl, ?_⟩
  rw [closing, ← List.append_assoc, openIndents_other (show Kind.endOfInput ≠ .indent by decide)
    (show Kind.endOfInput ≠ .dedent by decide)]
  have same := congrArg List.length comes.reached.leveled.levels
  rw [List.length_map, List.length_map] at same
  rw [(openIndents_dedents front fun t ht => by rw [List.eq_of_mem_replicate ht]; rfl).1]
  simp [same]

end Scan

/-! ## Layers -/

section
variable {source : String} {tokens before before' after after' : List Token} {token token' : Token}

/-- The innermost of the open levels is narrower than that of more levels around which they are. -/
theorem headD_lt_of_suffix {levels levels' : List Nat} (inner : levels <:+ levels')
    (fewer : levels ≠ levels') (descending : (levels' ++ [0]).Pairwise (· > ·)) :
    levels.headD 0 < levels'.headD 0 := by
  obtain ⟨more, rfl⟩ := inner
  cases more with
  | nil => exact absurd rfl fewer
  | cons level more =>
    rw [List.cons_append, List.cons_append, List.pairwise_cons] at descending
    refine descending.1 _ ?_
    cases levels <;> simp

/-- The widths of the lines that the open `Indent` tokens start, read off the whole source. -/
theorem map_take_of_split (split : tokens = before ++ after) :
    ((openIndents before).map fun i => indentWidth? source (before.take i)) =
      (openIndents before).map fun i => indentWidth? source (tokens.take i) := by
  rw [split, Scan.map_take_append (indentWidth? source)]

theorem Standing.endOfInput (h : Standing source before token after)
    (kind : token.kind = .endOfInput) : after = [] := by
  cases h with
  | last _ ended => exact ended
  | lexeme content =>
    rw [kind] at content
    cases content
  | newline kind' | indent kind' | dedent kind' | closing kind' =>
    rw [kind] at kind'
    cases kind'

theorem Standing.dedent_inside (h : Standing source before token after)
    (kind : token.kind = .dedent) : openIndents before ≠ [] := by
  cases h with
  | dedent _ _ inside | closing _ inside => exact inside
  | lexeme content =>
    rw [kind] at content
    cases content
  | newline kind' | indent kind' | last kind' =>
    rw [kind] at kind'
    cases kind'

theorem Standing.outside (h : Standing source before token after)
    (marks : token.kind = .newline ∨ token.kind = .indent ∨ token.kind = .dedent ∧
      (∃ later ∈ after, later.kind ≠ .dedent ∧ later.kind ≠ .endOfInput)) :
    openParens before = 0 := by
  cases h with
  | newline _ outside | indent _ outside | dedent _ outside => exact outside
  | lexeme content =>
    rcases marks with kind | kind | ⟨kind, -⟩ <;> rw [kind] at content <;> cases content
  | closing kind _ left =>
    rw [kind] at marks
    obtain ⟨-, later, hl, more, most⟩ := (marks.resolve_left nofun).resolve_left nofun
    exact absurd (left later hl) (not_or.2 ⟨more, most⟩)
  | last kind =>
    rw [kind] at marks
    rcases marks with marks | marks | ⟨marks, -⟩ <;> cases marks

theorem Standing.opens (h : Standing source before token after) (kind : token.kind = .indent) :
    AtLineStart before := by
  cases h with
  | indent _ _ opens => exact opens
  | lexeme content =>
    rw [kind] at content
    cases content
  | newline kind' | dedent kind' | closing kind' | last kind' =>
    rw [kind] at kind'
    cases kind'

/-- The width of the first lexeme on a line is that of its innermost level. -/
theorem Standing.width (h : Standing source before token after)
    (content : token.kind.endsLine = false) (starts : StartsLine before) :
    ∃ levels, (levels.map some =
        (openIndents before).map fun i => indentWidth? source (before.take i)) ∧
      (levels ++ [0]).Pairwise (· > ·) ∧ indentWidth? source before = some (levels.headD 0) := by
  cases h with
  | lexeme _ opened descending width => exact ⟨_, opened, descending, width starts⟩
  | newline kind | indent kind | dedent kind | closing kind | last kind =>
    rw [kind] at content
    cases content

end

/-- The tokens of every source are layered. -/
theorem tokenize_layered {source : String} {tokens : List Token}
    (h : tokenize source = .ok tokens) : Layered source tokens := by
  have standing {before token after} (split : tokens = before ++ token :: after) :=
    Scan.standing_of_tokenize h split
  have opened {before after} (split : tokens = before ++ after) :=
    length_openIndents split fun first token rest split => (standing split).dedent_inside
  obtain ⟨body, last, split, isEnd, none⟩ := Scan.last_of_tokenize h
  refine ⟨⟨body, last, split, isEnd, ?_⟩, ?_, ?_, ?_, ?_, ?_⟩
  · intro token ht kind
    obtain ⟨first, rest, rfl⟩ := List.append_of_mem ht
    rw [List.append_assoc, List.cons_append] at split
    have ended := (standing split).endOfInput kind
    simp at ended
  · intro before after split
    have := opened split
    omega
  · have := opened (List.append_nil tokens).symm
    rwa [none, List.length_nil, Nat.zero_add] at this
  · exact fun before token after split => (standing split).outside
  · exact fun before token after split => (standing split).opens
  · intro before token after before' token' after' split split' content content' starts starts'
    obtain ⟨levels, same, -, width⟩ := (standing split).width content starts
    obtain ⟨levels', same', descending, width'⟩ := (standing split').width content' starts'
    rw [map_take_of_split split] at same
    rw [map_take_of_split split'] at same'
    have injective : Function.Injective (List.map (some : Nat → Option Nat)) :=
      List.map_injective_iff.2 fun _ _ => Option.some.inj
    refine ⟨_, _, width, width', ?_, ?_⟩
    · intro equal
      rw [← equal, ← same] at same'
      rw [injective same']
    · intro inner fewer
      -- a proper part of the open `Indent` tokens stands for a proper part of the levels
      have suffix := inner.map fun i => indentWidth? source (tokens.take i)
      rw [← same, ← same'] at suffix
      refine headD_lt_of_suffix ?_ ?_ descending
      · have drop := List.suffix_iff_eq_drop.1 suffix
        rw [← List.map_drop] at drop
        exact injective drop ▸ List.drop_suffix _ _
      · intro equal
        rw [equal] at same
        have count := congrArg List.length (same.symm.trans same')
        rw [List.length_map, List.length_map] at count
        exact fewer (inner.eq_of_length count)

/-- The first lexeme of a line that opens a level stands behind a comment, and the width of its line
is that of the blanks in front of both. -/
theorem layered_comment : tokenize "a\n  /* b */ c" =
      .ok [⟨.ident "a", ⟨0, 1, 1, 1⟩⟩, ⟨.newline, ⟨1, 2, 1, 3⟩⟩, ⟨.indent, ⟨12, 12, 2, 11⟩⟩,
        ⟨.ident "c", ⟨12, 13, 2, 11⟩⟩, ⟨.dedent, ⟨13, 13, 2, 12⟩⟩,
        ⟨.endOfInput, ⟨13, 13, 2, 12⟩⟩] ∧
    Layered "a\n  /* b */ c" [⟨.ident "a", ⟨0, 1, 1, 1⟩⟩, ⟨.newline, ⟨1, 2, 1, 3⟩⟩,
      ⟨.indent, ⟨12, 12, 2, 11⟩⟩, ⟨.ident "c", ⟨12, 13, 2, 11⟩⟩, ⟨.dedent, ⟨13, 13, 2, 12⟩⟩,
      ⟨.endOfInput, ⟨13, 13, 2, 12⟩⟩] :=
  ⟨by decide +kernel, tokenize_layered (by decide +kernel)⟩

end StylusToScss
