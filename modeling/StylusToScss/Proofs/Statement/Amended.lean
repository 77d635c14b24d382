import StylusToScss.Proofs.Statement.Parts

/-!
# Sources that differ in the marks of their lines

`Amends` compares the tokens of two sources line by line: a line of the one stands somewhere else in
the other, with semicolons at its end, or both lines are the same property. Between the lines stand
the same marks of lines and levels. What a reader asks of the tokens that are left has then the same
answer in both sources: what stands behind line breaks (`Amends.faces`), whether a block follows
(`Amends.blockFollows`), and what stands behind it (`Amends.afterBlock`).
-/

namespace StylusToScss

variable {part whole : String} {move : Move} {first keyword token : Token}
  {tokens tokens' rest rest' line after : List Token}

/-! ## A line that stands somewhere else -/

/-- What is read in the part is read in the whole. -/
abbrev Kept {α : Type} (x x' : Read α) : Prop := Carries False (fun a a' => a' = a) x x'

/-- In the whole, a line stands on the same line of the source as in the part, and the same texts
are cut out of it. -/
structure Move.Copies (move : Move) (part whole : String) (line : List Token) : Prop where
  lines : move.lines = 0
  texts : ∀ piece, piece <:+: line →
    Kept (rawText part piece) (rawText whole (piece.map (·.moved move)))

namespace Move.Copies

/-- The same texts are cut out of a line, where what stands from one of its tokens to another one
is the same in both sources. -/
theorem of_slices {bare : Prop} (sliced : Sliced part bare line) (lines : move.lines = 0)
    (kept : ∀ first ∈ line, ∀ last ∈ line, ∀ text,
      slice? part first.span.start last.span.stop = some text →
        slice? whole (move.offset first.span.start) (move.offset last.span.stop) = some text) :
    move.Copies part whole line where
  lines := lines
  texts piece within := by
    let e : Embedding := ⟨part, whole, move, [], by rintro _ ⟨⟩, False, False.elim⟩
    have same : e.SameText piece := by
      refine Embedding.sameText (sliced.sublist within.sublist) ?_
      intro first hf last hl text slice
      exact kept first (within.subset (List.mem_of_mem_head? hf)) last
        (within.subset (List.mem_of_getLast? hl)) text slice
    exact same

/-- Both sources start with a text, and the tokens stand in it. -/
theorem ahead {bare : Prop} {front behind behind' : List Char} (sliced : Sliced part bare line)
    (split : part.toList = front ++ behind) (split' : whole.toList = front ++ behind')
    (inside : ∀ token ∈ line, token.span.stop ≤ byteLength front) :
    Move.none.Copies part whole line := by
  refine .of_slices sliced rfl ?_
  intro first _ last hl text slice
  exact slice?_front split split' (inside last hl) slice

/-- The whole has a gap in it, and the tokens stand behind the gap. -/
theorem past {bare : Prop} {front gap back : List Char} (sliced : Sliced part bare line)
    (split : part.toList = front ++ back) (split' : whole.toList = front ++ (gap ++ back))
    (outside : ∀ token ∈ line, byteLength front ≤ token.span.start) (number characters : Nat) :
    (Move.further number (byteLength gap) characters).Copies part whole line := by
  refine .of_slices sliced rfl ?_
  intro first hf last _ text slice
  have starts := outside first hf
  have ordered := (slice?_isSome_iff.1 (Option.isSome_of_eq_some slice)).1
  obtain ⟨stop, stops⟩ := Nat.exists_eq_add_of_le (Nat.le_trans starts ordered)
  obtain ⟨start, starts⟩ := Nat.exists_eq_add_of_le starts
  rw [← List.append_assoc] at split'
  rw [starts, stops] at slice ⊢
  have slice' := slice?_back split split' slice
  rwa [byteLength_append, Nat.add_right_comm, Nat.add_right_comm _ _ stop] at slice'

theorem of_isInfix {piece : List Token} (h : move.Copies part whole line)
    (within : piece <:+: line) : move.Copies part whole piece :=
  ⟨h.lines, fun inner hi => h.texts inner (hi.trans within)⟩

theorem line_moved (h : move.Copies part whole line) (token : Token) :
    (token.moved move).span.line = token.span.line :=
  congrArg (token.span.line + ·) h.lines

/-- A part with nothing behind it, of which failures are not compared. -/
def embedding (_ : move.Copies part whole line) : Embedding where
  part := part
  whole := whole
  move := move
  more := []
  starts := by rintro _ ⟨⟩
  strict := False
  unmoved := False.elim

theorem sameText (h : move.Copies part whole line) : h.embedding.SameText line :=
  h.texts line List.infix_rfl

theorem raised (h : move.Copies part whole line) : h.embedding.move.lines = 0 := h.lines

section
variable (h : move.Copies part whole line)
include h

theorem kept_valueOf (anchor : Token) (number : Nat) :
    Kept (valueOf line anchor number)
      (valueOf (line.map (·.moved move)) (anchor.moved move) number) := by
  have gives := h.embedding.gives_valueOf line anchor number
  rw [h.raised] at gives
  exact gives.mono fun value _ same => same.trans value.renumbered_id

theorem kept_readImport (first : Token) (number : Nat) :
    Kept (readImport part first line number)
      (readImport whole (first.moved move) (line.map (·.moved move)) number) := by
  have gives := @Embedding.gives_readImport line number h.embedding first fun _ => h.sameText
  rw [h.raised] at gives
  exact gives.mono fun node _ same => same.trans node.renumbered_id

theorem kept_readCondition (keyword : Token) :
    Kept (readCondition keyword line)
      (readCondition (keyword.moved move) (line.map (·.moved move))) := by
  have gives := h.embedding.gives_readCondition keyword line
  rw [h.raised] at gives
  exact gives.mono fun node _ same => same.trans node.renumbered_id

theorem kept_readLoopHead (first : Token) (number : Nat) :
    Kept (readLoopHead first line number)
      (readLoopHead (first.moved move) (line.map (·.moved move)) number) := by
  have gives := h.embedding.gives_readLoopHead first line number
  rw [h.raised] at gives
  refine gives.mono fun head _ same => same.trans ?_
  exact congrArg (LoopHead.mk head.item head.key) head.source.renumbered_id

theorem kept_readAssignment (name : String) (op : Token) (number : Nat) :
    Kept (readAssignment name op line number)
      (readAssignment name (op.moved move) (line.map (·.moved move)) number) := by
  have gives := h.embedding.gives_readAssignment name op line number
  rw [h.raised] at gives
  exact gives.mono fun node _ same => same.trans node.renumbered_id

theorem kept_readParameters (number : Nat) :
    Kept (readParameters line number) (readParameters (line.map (·.moved move)) number) := by
  have gives := h.embedding.gives_readParameters line number
  rw [h.raised] at gives
  exact gives.mono fun params _ same => same.trans params.renumbered_id

theorem kept_readSelectorLine :
    Kept (readSelectorLine part line) (readSelectorLine whole (line.map (·.moved move))) := by
  have gives := h.embedding.gives_readSelectorLine h.sameText
  rw [h.raised] at gives
  refine gives.mono fun selectors _ same => same.trans ?_
  rw [← renumberedSelectors_eq_map]
  exact renumberedSelectors_id selectors

theorem kept_readExpression (first : Token) (number : Nat) :
    Kept (readExpression line first number)
      (readExpression (line.map (·.moved move)) (first.moved move) number) := by
  have gives := h.embedding.gives_readExpression line first number
  rw [h.raised] at gives
  exact gives.mono fun node _ same => same.trans node.renumbered_id

theorem kept_readProperty (number : Nat) :
    Kept (readProperty part line number)
      (readProperty whole (line.map (·.moved move)) number) := by
  have name := (h.of_isInfix (propertyName_isPrefix line).isInfix).sameText
  have gives := h.embedding.gives_readProperty name number
  rw [h.raised] at gives
  exact gives.mono fun node _ same => same.trans node.renumbered_id

end

end Move.Copies

/-! ## Tokens, line by line -/

/-- The tokens of the part and those of the whole, line by line. A line stands somewhere else in the
whole, with semicolons at its end, or is written in another way as the same property. -/
inductive Amends (part whole : String) : List Token → List Token → Prop
  | nil : Amends part whole [] []
  | mark {token token' : Token} {rest rest' : List Token} (ends : token.kind.endsLine = true)
      (same : token'.kind = token.kind) (more : Amends part whole rest rest') :
      Amends part whole (token :: rest) (token' :: rest')
  | line {move : Move} {first : Token} {line semicolons rest rest' : List Token}
      (inLine : InLine (first :: line)) (copies : move.Copies part whole (first :: line))
      (marks : ∀ token ∈ semicolons, token.kind = .semicolon)
      (ended : ∀ token ∈ rest.head?, token.kind.endsLine = true)
      (more : Amends part whole rest rest') : Amends part whole (first :: (line ++ rest))
        (first.moved move :: (line.map (·.moved move) ++ semicolons ++ rest'))
  | property {first : Token} {line line' shown shown' rest rest' : List Token} {node : Node}
      (inLine : InLine (first :: line)) (inLine' : InLine (first :: line'))
      (cut : withoutSemicolons (first :: line) = first :: shown)
      (cut' : withoutSemicolons (first :: line') = first :: shown')
      (plain : endsWithComma (first :: shown) = false)
      (reads : ∀ after, blockFollows after = false →
        readNode part first shown after = .ok (.nothing node))
      (reads' : ∀ after, blockFollows after = false →
        readNode whole first shown' after = .ok (.nothing node))
      (ended : ∀ token ∈ rest.head?, token.kind.endsLine = true)
      (alone : blockFollows rest = false) (more : Amends part whole rest rest') :
      Amends part whole (first :: (line ++ rest)) (first :: (line' ++ rest'))

theorem withoutSemicolons_append {semicolons : List Token}
    (marks : ∀ token ∈ semicolons, token.kind = .semicolon) :
    withoutSemicolons (line ++ semicolons) = withoutSemicolons line := by
  unfold withoutSemicolons
  rw [List.reverse_append, List.dropWhile_append_of_pos]
  intro token ht
  simpa using marks token (List.mem_reverse.1 ht)

/-- A line with what stands behind it. -/
theorem InLine.cut (inLine : InLine line)
    (ended : ∀ token ∈ rest.head?, token.kind.endsLine = true) :
    lineOf (line ++ rest) = withoutSemicolons line ∧ afterLine (line ++ rest) = rest := by
  have content : ∀ token ∈ line, (!token.kind.endsLine) = true := by
    intro token ht
    rw [inLine token ht]
    rfl
  obtain ⟨none, same⟩ := line_ended ended
  unfold lineOf afterLine at *
  rw [List.takeWhile_append_of_pos content, List.dropWhile_append_of_pos content, none, same,
    List.append_nil]
  exact ⟨rfl, rfl⟩

/-- A line that has been moved, with semicolons at its end. -/
theorem InLine.marked {semicolons : List Token} (inLine : InLine line) (move : Move)
    (marks : ∀ token ∈ semicolons, token.kind = .semicolon) :
    InLine (line.map (·.moved move) ++ semicolons) := by
  intro token ht
  rcases List.mem_append.1 ht with ht | ht
  · obtain ⟨earlier, mem, rfl⟩ := List.mem_map.1 ht
    exact inLine earlier mem
  · rw [marks token ht]
    rfl

theorem InLine.afterLevels (inLine : InLine line) (depth : Nat) (rest : List Token) :
    afterLevels depth (line ++ rest) = afterLevels depth rest := by
  induction line with
  | nil => rfl
  | cons token line ih =>
    obtain ⟨content, further⟩ := List.forall_mem_cons.1 inLine
    obtain ⟨kind, span⟩ := token
    rw [List.cons_append, ← ih further]
    cases kind <;> first | rfl | cases content

namespace Amends

/-- The line of the part and the one of the whole, without the semicolons at their ends, and what
stands behind them in the part. -/
inductive Alike (part whole : String) (after : List Token) : List Token → List Token → Prop
  | moved {move : Move} {line : List Token} (copies : move.Copies part whole line) :
      Alike part whole after line (line.map (·.moved move))
  | property {first : Token} {shown shown' : List Token} {node : Node}
      (plain : endsWithComma (first :: shown) = false)
      (reads : ∀ after, blockFollows after = false →
        readNode part first shown after = .ok (.nothing node))
      (reads' : ∀ after, blockFollows after = false →
        readNode whole first shown' after = .ok (.nothing node))
      (alone : blockFollows after = false) :
      Alike part whole after (first :: shown) (first :: shown')

/-- What stands behind line breaks. -/
inductive Faces (part whole : String) : List Token → List Token → Prop
  | ends {tokens tokens' : List Token} (kind : (firstToken tokens).kind = .endOfInput)
      (kind' : (firstToken tokens').kind = .endOfInput) (same : Amends part whole tokens tokens') :
      Faces part whole tokens tokens'
  | indent {token token' : Token} {rest rest' : List Token} (kind : token.kind = .indent)
      (kind' : token'.kind = .indent) (more : Amends part whole rest rest') :
      Faces part whole (token :: rest) (token' :: rest')
  | dedent {token token' : Token} {rest rest' : List Token} (kind : token.kind = .dedent)
      (kind' : token'.kind = .dedent) (more : Amends part whole rest rest') :
      Faces part whole (token :: rest) (token' :: rest')
  | content {first first' : Token} {rest rest' : List Token} (content : first.kind.endsLine = false)
      (same : first'.kind = first.kind)
      (behind : Amends part whole (afterLine rest) (afterLine rest'))
      (alike : Alike part whole (afterLine rest) (lineOf (first :: rest))
        (lineOf (first' :: rest'))) : Faces part whole (first :: rest) (first' :: rest')

theorem ended (h : Amends part whole tokens tokens')
    (ended : ∀ token ∈ tokens.head?, token.kind.endsLine = true) :
    ∀ token ∈ tokens'.head?, token.kind.endsLine = true := by
  cases h with
  | nil => exact ended
  | mark ends same =>
    rintro _ ⟨⟩
    rw [same, ends]
  | line inLine | property inLine =>
    have content := inLine _ (.head _)
    rw [ended _ rfl] at content
    cases content

theorem firstKind (h : Amends part whole tokens tokens') :
    (firstToken tokens').kind = (firstToken tokens).kind := by
  cases h with
  | nil | line | property => rfl
  | mark _ same => exact same

theorem skipNewlines (h : Amends part whole tokens tokens') :
    Amends part whole (skipNewlines tokens) (skipNewlines tokens') := by
  have stays {token : Token} {rest : List Token} (content : token.kind.endsLine = false) :
      StylusToScss.skipNewlines (token :: rest) = token :: rest := by
    refine skipNewlines_of_ne fun newline => ?_
    rw [newline] at content
    cases content
  induction h with
  | nil => exact .nil
  | @mark token token' rest rest' ends same more ih =>
    by_cases newline : token.kind = .newline
    · rw [skipNewlines_newline newline, skipNewlines_newline (same.trans newline)]
      exact ih
    · rw [skipNewlines_of_ne newline, skipNewlines_of_ne (same ▸ newline)]
      exact .mark ends same more
  | @line move first _ _ _ _ inLine copies marks ended more =>
    have content := inLine first (.head _)
    have content' : (first.moved move).kind.endsLine = false := content
    rw [stays content, stays content']
    exact .line inLine copies marks ended more
  | property inLine inLine' cut cut' plain reads reads' ended alone more =>
    have content := inLine _ (.head _)
    rw [stays content, stays content]
    exact .property inLine inLine' cut cut' plain reads reads' ended alone more

theorem blockFollows (h : Amends part whole tokens tokens') :
    blockFollows tokens' = blockFollows tokens := by
  unfold StylusToScss.blockFollows
  rw [h.skipNewlines.firstKind]

theorem afterLevels (h : Amends part whole tokens tokens') (depth : Nat) :
    Amends part whole (afterLevels depth tokens) (afterLevels depth tokens') := by
  induction h generalizing depth with
  | nil => exact .nil
  | @mark token token' rest rest' ends same more ih =>
    obtain ⟨kind, span⟩ := token
    obtain ⟨_, span'⟩ := token'
    cases same
    cases kind with
    | endOfInput => exact .mark rfl rfl more
    | indent => exact ih _
    | newline => exact ih _
    | dedent =>
      show Amends part whole (if depth ≤ 1 then rest else _) (if depth ≤ 1 then rest' else _)
      split
      · exact more
      · exact ih _
    | _ => cases ends
  | @line move first line semicolons rest rest' inLine copies marks ended more ih =>
    have past : StylusToScss.afterLevels depth (first :: (line ++ rest)) =
        StylusToScss.afterLevels depth rest := inLine.afterLevels depth rest
    have past' := (inLine.marked move marks).afterLevels depth rest'
    rw [List.map_cons, List.cons_append, List.cons_append] at past'
    rw [past, past']
    exact ih depth
  | @property first line line' _ _ rest rest' _ inLine inLine' _ _ _ _ _ _ _ _ ih =>
    have past : StylusToScss.afterLevels depth (first :: (line ++ rest)) =
        StylusToScss.afterLevels depth rest := inLine.afterLevels depth rest
    have past' : StylusToScss.afterLevels depth (first :: (line' ++ rest')) =
        StylusToScss.afterLevels depth rest' := inLine'.afterLevels depth rest'
    rw [past, past']
    exact ih depth

theorem tail (h : Amends part whole (token :: rest) tokens')
    (ends : token.kind.endsLine = true) :
    ∃ token' rest', tokens' = token' :: rest' ∧ token'.kind = token.kind ∧
      Amends part whole rest rest' := by
  generalize here : token :: rest = tokens at h
  cases h with
  | nil => cases here
  | mark _ same more =>
    cases here
    exact ⟨_, _, rfl, same, more⟩
  | line inLine | property inLine =>
    cases here
    rw [inLine token (.head _)] at ends
    cases ends

theorem start (h : Amends part whole (first :: rest) tokens')
    (content : first.kind.endsLine = false) :
    ∃ first' rest', tokens' = first' :: rest' ∧ first'.kind = first.kind ∧
      Amends part whole (afterLine rest) (afterLine rest') ∧
      Alike part whole (afterLine rest) (lineOf (first :: rest)) (lineOf (first' :: rest')) := by
  generalize here : first :: rest = tokens at h
  cases h with
  | nil => cases here
  | mark ends =>
    cases here
    rw [ends] at content
    cases content
  | @line move _ line semicolons rest rest' inLine copies marks ended more =>
    cases here
    have content' : (first.moved move).kind.endsLine = false := content
    obtain ⟨shown, behind⟩ := inLine.cut ended
    obtain ⟨shown', behind'⟩ := (inLine.marked move marks).cut (more.ended ended)
    rw [withoutSemicolons_append marks, withoutSemicolons_moved] at shown'
    rw [List.cons_append, afterLine_cons content] at behind
    rw [List.map_cons, List.cons_append, List.cons_append, afterLine_cons content'] at behind'
    refine ⟨_, _, rfl, rfl, ?_, ?_⟩
    · rw [behind, behind']
      exact more
    · rw [behind, ← List.cons_append, shown]
      exact shown' ▸ .moved (copies.of_isInfix (withoutSemicolons_isPrefix _).isInfix)
  | property inLine inLine' cut cut' plain reads reads' ended alone more =>
    cases here
    obtain ⟨shown, behind⟩ := inLine.cut ended
    obtain ⟨shown', behind'⟩ := inLine'.cut (more.ended ended)
    rw [List.cons_append] at shown behind shown' behind'
    rw [afterLine_cons content] at behind behind'
    refine ⟨_, _, rfl, rfl, ?_, ?_⟩
    · rw [behind, behind']
      exact more
    · rw [behind, shown, shown', cut, cut']
      exact .property plain reads reads' alone

theorem faces (h : Amends part whole tokens tokens') :
    Faces part whole (StylusToScss.skipNewlines tokens) (StylusToScss.skipNewlines tokens') := by
  have skipped := h.skipNewlines
  cases here : StylusToScss.skipNewlines tokens with
  | nil =>
    rw [here] at skipped
    exact .ends rfl (skipped.firstKind.trans rfl) skipped
  | cons token rest =>
    rw [here] at skipped
    have solid := kind_of_skipNewlines here
    cases ends : token.kind.endsLine with
    | false =>
      obtain ⟨first', rest', here', same, behind, alike⟩ := skipped.start ends
      rw [here']
      exact .content ends same behind alike
    | true =>
      obtain ⟨token', rest', here', same, more⟩ := skipped.tail ends
      rw [here'] at skipped ⊢
      cases kind : token.kind with
      | indent => exact .indent kind (same.trans kind) more
      | dedent => exact .dedent kind (same.trans kind) more
      | endOfInput => exact .ends kind (same.trans kind) skipped
      | newline => exact absurd kind solid
      | _ =>
        rw [kind] at ends
        cases ends

theorem afterBlock (h : Amends part whole tokens tokens') :
    Amends part whole (afterBlock tokens) (afterBlock tokens') := by
  have faces := h.faces
  unfold StylusToScss.afterBlock
  rw [h.blockFollows]
  unfold StylusToScss.blockFollows
  generalize StylusToScss.skipNewlines tokens = text at faces ⊢
  generalize StylusToScss.skipNewlines tokens' = text' at faces ⊢
  split
  · next follows =>
    have kind := beq_iff_eq.1 follows
    cases faces with
    | indent _ _ more => exact more.afterLevels 1
    | ends other => cases other.symm.trans kind
    | dedent other => cases other.symm.trans kind
    | @content first _ _ _ content =>
      have kind : first.kind = .indent := kind
      rw [kind] at content
      cases content
  · exact h

/-- A line that is not empty stands in both. -/
theorem Faces.lineOf (h : Faces part whole tokens tokens') (some : lineOf tokens ≠ []) :
    lineOf tokens' ≠ [] ∧ Amends part whole (afterLine tokens) (afterLine tokens') ∧
      Alike part whole (afterLine tokens) (lineOf tokens) (lineOf tokens') := by
  obtain ⟨token, rest, rfl, content⟩ := content_of_lineOf some
  cases h with
  | @content _ first' _ rest' _ same behind alike =>
    have content' : first'.kind.endsLine = false := same ▸ content
    rw [afterLine_cons content, afterLine_cons content']
    refine ⟨?_, behind, alike⟩
    generalize StylusToScss.lineOf (token :: rest) = line at *
    generalize StylusToScss.lineOf (first' :: rest') = line' at *
    cases alike with
    | moved => exact mt List.map_eq_nil_iff.1 some
    | property => exact List.cons_ne_nil _ _
  | indent kind | dedent kind | ends kind =>
    have kind : token.kind = _ := kind
    rw [kind] at content
    cases content

/-- An `else` line is no property. -/
theorem Alike.clause {word word' : Token} (isElse : word.kind = .ident "else")
    (isElse' : word'.kind = .ident "else")
    (h : Alike part whole after (StylusToScss.lineOf (word :: rest))
      (StylusToScss.lineOf (word' :: rest'))) :
    ∃ move : Move, move.Copies part whole
        (word :: withoutSemicolons (rest.takeWhile fun t => !t.kind.endsLine)) ∧
      word' = word.moved move ∧ withoutSemicolons (rest'.takeWhile fun t => !t.kind.endsLine) =
        (withoutSemicolons (rest.takeWhile fun t => !t.kind.endsLine)).map (·.moved move) := by
  rw [lineOf_cons (by rw [isElse]; rfl), lineOf_cons (by rw [isElse']; rfl),
    withoutSemicolons_cons _ (by rw [isElse]; rintro ⟨⟩),
    withoutSemicolons_cons _ (by rw [isElse']; rintro ⟨⟩)] at h
  generalize withoutSemicolons (rest.takeWhile fun t => !t.kind.endsLine) = line at *
  generalize withoutSemicolons (rest'.takeWhile fun t => !t.kind.endsLine) = line' at *
  generalize here : word :: line = shown at h
  generalize here' : word' :: line' = shown' at h
  cases h with
  | @moved move _ copies =>
    subst here
    exact ⟨move, copies, List.cons.inj here'⟩
  | property _ reads =>
    cases here
    have none := reads [] rfl
    unfold readNode at none
    simp only [isElse] at none
    cases none

/-! ## Moved tokens -/

/-- A list of tokens starts with a mark of lines, or with a line and the marks behind it. -/
theorem exists_line (tokens : List Token) : ∃ line rest, tokens = line ++ rest ∧ InLine line ∧
    ∀ token ∈ rest.head?, token.kind.endsLine = true := by
  refine ⟨tokens.takeWhile fun token => !token.kind.endsLine, afterLine tokens,
    (List.takeWhile_append_dropWhile ..).symm, ?_, ?_⟩
  · intro token ht
    simpa using List.mem_takeWhile_imp ht
  · intro token ht
    have first := List.head?_dropWhile_not (fun token : Token => !token.kind.endsLine) tokens
    rw [show (tokens.dropWhile _).head? = some token from ht] at first
    simpa using first

/-- Where the lines of tokens have been moved with all that stands between them, the tokens behind
them correspond if they did before. -/
theorem behind {move : Move} (front : List Token)
    (copies : ∀ piece, piece <:+: front → InLine piece → move.Copies part whole piece)
    (closed : ∀ token ∈ front.getLast?, token.kind.endsLine = true)
    (h : Amends part whole tokens tokens') :
    Amends part whole (front ++ tokens) (front.map (·.moved move) ++ tokens') := by
  -- a line is passed as a whole, so what is left may be shorter by any number of tokens
  induction size : front.length using Nat.strong_induction_on generalizing front with | _ n ih
  subst size
  cases front with
  | nil => exact h
  | cons first front =>
    cases ends : first.kind.endsLine with
    | true =>
      have within : front <:+: first :: front := (List.suffix_cons _ _).isInfix
      have closed' : ∀ token ∈ front.getLast?, token.kind.endsLine = true := by
        intro token ht
        refine closed token ?_
        rw [List.getLast?_cons, Option.mem_def.1 ht]
        rfl
      exact .mark ends rfl (ih _ (Nat.lt_succ_self _) front
        (fun piece inner => copies piece (inner.trans within)) closed' rfl)
    | false =>
      obtain ⟨line, rest, rfl, inLine, ended⟩ := exists_line front
      have inLine' : InLine (first :: line) := List.forall_mem_cons.2 ⟨ends, inLine⟩
      have last : rest ≠ [] := by
        rintro rfl
        rw [List.append_nil] at closed
        have mem := List.getLast_mem (List.cons_ne_nil first line)
        have content := inLine' _ mem
        rw [closed _ (List.getLast?_eq_some_getLast _)] at content
        cases content
      have within : rest <:+: first :: (line ++ rest) :=
        (List.suffix_append (first :: line) rest).isInfix
      have closed' : ∀ token ∈ rest.getLast?, token.kind.endsLine = true := by
        intro token ht
        refine closed token ?_
        rw [← List.cons_append, List.getLast?_append_of_ne_nil _ last]
        exact ht
      have shorter : rest.length < (first :: (line ++ rest)).length := by
        rw [List.length_cons, List.length_append]
        omega
      have more :=
        ih _ shorter rest (fun piece inner => copies piece (inner.trans within)) closed' rfl
      have ended' : ∀ token ∈ (rest ++ tokens).head?, token.kind.endsLine = true := by
        intro token ht
        rw [List.head?_append_of_ne_nil _ last] at ht
        exact ended token ht
      have here := @Amends.line part whole move first line [] _ _ inLine'
        (copies (first :: line) (List.prefix_append (first :: line) rest).isInfix inLine')
        (List.forall_mem_nil _) ended' more
      simpa using here

end Amends

end StylusToScss
