import StylusToScss.Proofs.Statement.Amended

/-!
# Statements of a source and of an amended one

Where the tokens of two sources correspond line by line (`Amends`), the statements that are read in
the first source are read in the second one (`Amends.kept_readStatements`). The proof follows the
readers of statements, by the same recursion. Failures are not compared.
-/

namespace StylusToScss

variable {part whole : String} {move : Move} {first : Token}
  {tokens tokens' line after after' : List Token}

namespace Amends

/-! ## Statements -/

/-- The selectors of a line that does not end with a comma are the last ones. -/
theorem readSelectors_last {source : String} (plain : endsWithComma line = false) :
    readSelectors source line after = do
      let selectors ← readSelectorLine source line
      return .nothing selectors := by
  rw [readSelectors, plain]
  rfl

/-- At the end of the input, a block has no further statements. -/
theorem readBody_ends {source : String}
    (h : (firstToken (StylusToScss.skipNewlines tokens)).kind = .endOfInput) :
    readBody source tokens = .ok ((Taken.nothing []).ofSkipped rfl) := by
  rw [readBody]
  split
  · next none =>
    congr 1
    simp only [Taken.ofSkipped, Taken.nothing, none]
  · next token rest here =>
    rw [here] at h
    have kind : token.kind = .endOfInput := h
    simp only [kind]
    congr 1
    simp only [Taken.ofSkipped, Taken.nothing, here]

/-- At the end of the input, there are no further statements. -/
theorem readStatements_done {source : String}
    (h : (firstToken (StylusToScss.skipNewlines tokens)).kind = .endOfInput) :
    readStatements source tokens = .ok [] := by
  rw [readStatements_eq]
  cases here : StylusToScss.skipNewlines tokens with
  | nil => rfl
  | cons token rest =>
    rw [here] at h
    have kind : token.kind = .endOfInput := h
    simp only [kind]

/-- The second reading gives the value of the first one, and the tokens that both leave
correspond. -/
structure Follows (part whole : String) {n : Nat} {α : Type} {tokens tokens' : List Token}
    (taken : Taken n α tokens) (taken' : Taken n α tokens') : Prop where
  value : taken'.value = taken.value
  more : Amends part whole taken.rest taken'.rest

/-- What is read in the part is read in the whole. -/
abbrev Brings (part whole : String) {n : Nat} {α : Type} {tokens tokens' : List Token}
    (x : ReadResult n α tokens) (x' : ReadResult n α tokens') : Prop :=
  Carries False (Follows part whole) x x'

/-- A reader of a line alone leaves what stands behind the line. -/
theorem brings_of_kept {x x' : Read Node} (h : Kept x x') (more : Amends part whole after after') :
    Brings part whole (do return .nothing (← x) : ReadResult 0 Node after)
      (do return .nothing (← x') : ReadResult 0 Node after') := by
  refine h.bind ?_
  rintro node _ rfl
  exact .ok ⟨rfl, more⟩

theorem brings_readLineBreak (h : Amends part whole tokens tokens') :
    Brings part whole (readLineBreak tokens) (readLineBreak tokens') := by
  by_cases newline : (firstToken tokens).kind = .newline
  · cases h with
    | nil => cases newline
    | @mark token token' _ _ _ same more =>
      obtain ⟨_, span⟩ := token
      obtain ⟨_, span'⟩ := token'
      cases same
      cases newline
      exact .ok ⟨rfl, more⟩
    | @line _ first _ _ _ _ inLine | @property first _ _ _ _ _ _ _ inLine =>
      have content := inLine first (.head _)
      rw [show first.kind = .newline from newline] at content
      cases content
  · rw [readLineBreak_other newline]
    exact False.elim

mutual

theorem brings_readBody (tokens : List Token) {tokens' : List Token}
    (h : Amends part whole tokens tokens') :
    Brings part whole (readBody part tokens) (readBody whole tokens') := by
  have faces := h.faces
  generalize here : StylusToScss.skipNewlines tokens = text at faces
  generalize here' : StylusToScss.skipNewlines tokens' = text' at faces
  cases faces with
  | ends kind kind' same =>
    rw [readBody_ends (here ▸ kind), readBody_ends (here' ▸ kind')]
    refine .ok ⟨rfl, ?_⟩
    show Amends part whole (StylusToScss.skipNewlines tokens) (StylusToScss.skipNewlines tokens')
    rw [here, here']
    exact same
  | indent kind =>
    rw [readBody_indent here kind]
    exact False.elim
  | dedent kind kind' more =>
    rw [readBody_dedent here kind, readBody_dedent here' kind']
    exact .ok ⟨rfl, more⟩
  | @content first first' rest rest' content same behind alike =>
    have content' : first'.kind.endsLine = false := same ▸ content
    have less := length_of_skipNewlines here
    rw [readBody_content here content, readBody_content here' content']
    refine (brings_readStatement first rest content content' behind alike).bind ?_
    rintro statement statement' ⟨value, more⟩
    have := statement.rest_le
    refine (brings_readBody _ more).bind ?_
    rintro nodes nodes' ⟨values, more⟩
    refine .ok ⟨?_, more⟩
    show statement'.value.toList ++ nodes'.value = statement.value.toList ++ nodes.value
    rw [value, values]
termination_by 16 * tokens.length + 9

theorem brings_readBlock (number : Nat) (tokens : List Token) {tokens' : List Token}
    (h : Amends part whole tokens tokens') :
    Brings part whole (readBlock part number tokens) (readBlock whole number tokens') := by
  have faces := h.faces
  by_cases follows : (firstToken (StylusToScss.skipNewlines tokens)).kind = .indent
  · generalize here : StylusToScss.skipNewlines tokens = text at faces follows
    generalize here' : StylusToScss.skipNewlines tokens' = text' at faces
    cases faces with
    | @indent _ _ rest _ kind kind' more =>
      have less := length_of_skipNewlines here
      rw [readBlock_indent _ here kind, readBlock_indent _ here' kind']
      refine (brings_readBody rest more).bind ?_
      rintro body body' ⟨value, more⟩
      exact .ok ⟨congrArg (Block.mk · number) value, more⟩
    | @content first _ _ _ content =>
      rw [show first.kind = .indent from follows] at content
      cases content
    | ends kind => cases kind.symm.trans follows
    | dedent kind => cases kind.symm.trans follows
  · rw [readBlock_other _ follows]
    exact False.elim
termination_by 16 * tokens.length + 1

theorem brings_readStatement (first : Token) (rest : List Token) {first' : Token}
    {rest' : List Token} (content : first.kind.endsLine = false)
    (content' : first'.kind.endsLine = false)
    (behind : Amends part whole (afterLine rest) (afterLine rest'))
    (alike : Alike part whole (afterLine rest) (lineOf (first :: rest))
      (lineOf (first' :: rest'))) :
    Brings part whole (readStatement part first rest) (readStatement whole first' rest') := by
  have := length_afterLine rest
  unfold readStatement
  rw [← lineOf_cons content, ← lineOf_cons content']
  generalize lineOf (first :: rest) = line at alike
  generalize lineOf (first' :: rest') = line' at alike
  cases alike with
  | moved copies =>
    cases line with
    | nil => exact .ok ⟨rfl, behind⟩
    | cons start line =>
      refine (brings_readNode start line (afterLine rest) copies behind).bind ?_
      rintro node node' ⟨value, more⟩
      exact .ok ⟨congrArg some value, more⟩
  | property _ reads reads' alone =>
    simp only
    rw [reads _ alone, reads' _ (behind.blockFollows.trans alone)]
    exact .ok ⟨rfl, behind⟩
termination_by 16 * rest.length + (16 + 8)

theorem brings_readNode {move : Move} (first : Token) (line after : List Token)
    {after' : List Token} (copies : move.Copies part whole (first :: line))
    (h : Amends part whole after after') :
    Brings part whole (readNode part first line after)
      (readNode whole (first.moved move) (line.map (·.moved move)) after') := by
  have behind := copies.of_isInfix (List.suffix_cons first line).isInfix
  by_cases keyword : ∃ word ∈ keywords, first.kind = .ident word
  · obtain ⟨word, mem, kind⟩ := keyword
    have words : word = "if" ∨ word = "unless" ∨ word = "else" ∨ word = "for" ∨
        word = "return" := by
      simpa [keywords] using mem
    unfold readNode
    simp only [Token.kind_moved, copies.line_moved, kind]
    rcases words with rfl | rfl | rfl | rfl | rfl
    · exact brings_readConditional first line after copies h
    · exact brings_readConditional first line after copies h
    · exact False.elim
    · refine (behind.kept_readLoopHead first first.span.line).bind ?_
      rintro head _ rfl
      refine (brings_readBlock first.span.line after h).bind ?_
      rintro block block' ⟨value, more⟩
      exact .ok ⟨congrArg (Node.loop _ _ _ · _) value, more⟩
    · refine (behind.kept_valueOf first first.span.line).bind ?_
      rintro value _ rfl
      exact .ok ⟨rfl, h⟩
  · have other : ∀ word ∈ keywords, first.kind ≠ .ident word :=
      fun word mem kind => keyword ⟨word, mem, kind⟩
    by_cases isAtWord : ∃ word, first.kind = .atWord word
    · obtain ⟨word, kind⟩ := isAtWord
      unfold readNode
      simp only [Token.kind_moved, copies.line_moved, kind]
      split
      · exact brings_of_kept (behind.kept_readImport first first.span.line) h
      · exact .ok ⟨rfl, h.afterBlock⟩
    · have plain : ∀ word, first.kind ≠ .atWord word := fun word kind => isAtWord ⟨word, kind⟩
      have plain' : ∀ word, (first.moved move).kind ≠ .atWord word := plain
      have other' : ∀ word ∈ keywords, (first.moved move).kind ≠ .ident word := other
      rw [readNode_declaration plain other, readNode_declaration plain' other']
      exact brings_readDeclaration first line after copies h
termination_by 16 * after.length + 7

theorem brings_readConditional {move : Move} (keyword : Token) (line after : List Token)
    {after' : List Token} (copies : move.Copies part whole (keyword :: line))
    (h : Amends part whole after after') :
    Brings part whole (readConditional part keyword line after)
      (readConditional whole (keyword.moved move) (line.map (·.moved move)) after') := by
  have behind := copies.of_isInfix (List.suffix_cons keyword line).isInfix
  unfold readConditional
  rw [copies.line_moved]
  refine (behind.kept_readCondition keyword).bind ?_
  rintro condition _ rfl
  refine (brings_readBlock keyword.span.line after h).bind ?_
  rintro block block' ⟨value, more⟩
  have := block.rest_lt
  refine (brings_readAlternatives _ more).bind ?_
  rintro alternatives alternatives' ⟨values, more⟩
  refine .ok ⟨?_, more⟩
  show Node.conditional _ block'.value alternatives'.value _ = .conditional _ _ _ _
  rw [value, values]
termination_by 16 * after.length + 6

theorem brings_readAlternatives (tokens : List Token) {tokens' : List Token}
    (h : Amends part whole tokens tokens') :
    Brings part whole (readAlternatives part tokens) (readAlternatives whole tokens') := by
  have faces := h.faces
  cases isElse : (firstToken (StylusToScss.skipNewlines tokens)).kind.isWord "else" with
  | false =>
    have isElse' : (firstToken (StylusToScss.skipNewlines tokens')).kind.isWord "else" = false := by
      rw [h.skipNewlines.firstKind, isElse]
    rw [readAlternatives_other isElse, readAlternatives_other isElse']
    exact .ok ⟨rfl, h⟩
  | true =>
    have isElse := Kind.isWord_iff.1 isElse
    generalize here : StylusToScss.skipNewlines tokens = text at faces isElse
    generalize here' : StylusToScss.skipNewlines tokens' = text' at faces
    cases faces with
    | @content word word' rest rest' content same behind alike =>
      have isElse : word.kind = .ident "else" := isElse
      have isElse' := same.trans isElse
      have := length_afterLine rest
      have := length_of_skipNewlines here
      rw [readAlternatives_else here isElse, readAlternatives_else here' isElse']
      obtain ⟨move, copies, rfl, clause⟩ := alike.clause isElse isElse'
      rw [clause, copies.line_moved]
      generalize withoutSemicolons (rest.takeWhile fun t => !t.kind.endsLine) = line at copies
      cases line with
      | nil =>
        simp only [List.map_nil]
        refine (brings_readBlock word.span.line _ behind).bind ?_
        rintro block block' ⟨value, more⟩
        exact .ok ⟨congrArg (fun block => [Node.block block]) value, more⟩
      | cons keyword line =>
        have copies := copies.of_isInfix
          ((List.suffix_cons keyword line).trans (List.suffix_cons word _)).isInfix
        simp only [List.map_cons]
        rw [Token.kind_moved]
        split
        · refine (copies.kept_readCondition keyword).bind ?_
          rintro condition _ rfl
          refine (brings_readBlock word.span.line _ behind).bind ?_
          rintro block block' ⟨value, more⟩
          have := block.rest_lt
          refine (brings_readAlternatives _ more).bind ?_
          rintro others others' ⟨values, more⟩
          refine .ok ⟨?_, more⟩
          show Node.conditional _ block'.value [] _ :: others'.value = _
          rw [value, values]
          rfl
        · exact False.elim
    | indent kind | dedent kind | ends kind => cases kind.symm.trans isElse
termination_by 16 * tokens.length + 5

theorem brings_readDeclaration {move : Move} (first : Token) (line after : List Token)
    {after' : List Token} (copies : move.Copies part whole (first :: line))
    (h : Amends part whole after after') :
    Brings part whole (readDeclaration part first line after)
      (readDeclaration whole (first.moved move) (line.map (·.moved move)) after') := by
  by_cases assignment : assigns line = true ∧ ∃ name, first.kind = .ident name
  · obtain ⟨assigned, name, kind⟩ := assignment
    cases line with
    | nil => cases assigned
    | cons op value =>
      have isOp : op.kind = .assign ∨ op.kind = .conditionalAssign := by
        simpa [assigns] using assigned
      have kind' : (first.moved move).kind = .ident name := kind
      have isOp' : (op.moved move).kind = .assign ∨ (op.moved move).kind = .conditionalAssign :=
        isOp
      have behind : move.Copies part whole value :=
        copies.of_isInfix ((List.suffix_cons op value).trans (List.suffix_cons first _)).isInfix
      rw [readDeclaration_assigns kind isOp, List.map_cons, readDeclaration_assigns kind' isOp',
        copies.line_moved]
      exact brings_of_kept (behind.kept_readAssignment name op first.span.line) h
  · have quiet : ∀ name, first.kind = .ident name → assigns line = false :=
      fun name kind => Bool.eq_false_iff.2 fun assigned => assignment ⟨assigned, name, kind⟩
    have quiet' : ∀ name, (first.moved move).kind = .ident name →
        assigns (line.map (·.moved move)) = false := by
      intro name kind
      rw [← quiet name kind]
      cases line <;> rfl
    have definition := @definitionName?_moved move (first :: line)
    have call := @startsCall_moved move (first :: line)
    have comma := @endsWithComma_moved move (first :: line)
    rw [List.map_cons] at definition call comma
    have whole_line : first.moved move :: line.map (·.moved move) =
        (first :: line).map (·.moved move) := rfl
    rw [readDeclaration_other quiet, readDeclaration_other quiet', h.blockFollows, definition, call,
      comma, copies.line_moved, whole_line]
    split
    · split
      · rw [List.length_map]
        refine (copies.embedding.carries_tokensBetween (first :: line) 2 _).bind ?_
        rintro inside _ ⟨part, rfl⟩
        have within : inside <:+: first :: line := by
          rw [part]
          exact (List.drop_suffix _ _).isInfix.trans (List.take_prefix _ _).isInfix
        refine ((copies.of_isInfix within).kept_readParameters first.span.line).bind ?_
        rintro params _ rfl
        refine (brings_readBlock first.span.line after h).bind ?_
        rintro block block' ⟨value, more⟩
        exact .ok ⟨congrArg (Node.definition _ _ · _) value, more⟩
      · exact brings_readGroup first.span.line (first :: line) after copies h
    · split
      · exact brings_of_kept (copies.kept_readExpression first first.span.line) h
      · split
        · exact brings_readGroup first.span.line (first :: line) after copies h
        · exact brings_of_kept (copies.kept_readProperty first.span.line) h
termination_by 16 * after.length + 4

theorem brings_readGroup {move : Move} (number : Nat) (line after : List Token)
    {after' : List Token} (copies : move.Copies part whole line)
    (h : Amends part whole after after') :
    Brings part whole (readGroup part number line after)
      (readGroup whole number (line.map (·.moved move)) after') := by
  unfold readGroup
  cases read : readSelectors part line after with
  | error e => exact False.elim
  | ok selectors =>
    cases follows : StylusToScss.blockFollows selectors.rest with
    | false =>
      have other : (firstToken (StylusToScss.skipNewlines selectors.rest)).kind ≠ .indent := by
        simpa [StylusToScss.blockFollows] using follows
      rw [ok_bind, readBlock_other _ other]
      exact False.elim
    | true =>
      obtain ⟨selectors', read', value, more⟩ :=
        brings_readSelectors line after copies h read follows
      rw [read', ok_bind, ok_bind]
      have := selectors.rest_le
      refine (brings_readBlock number _ more).bind ?_
      rintro block block' ⟨value', more⟩
      exact .ok ⟨congr (congrArg Node.group value) value', more⟩
termination_by 16 * after.length + 3

/-- The lines of selectors of which the last one has a block. So none of them is a property. -/
theorem brings_readSelectors {move : Move} (line after : List Token) {after' : List Token}
    {taken : Taken 0 (List Selector) after} (copies : move.Copies part whole line)
    (h : Amends part whole after after') (read : readSelectors part line after = .ok taken)
    (follows : StylusToScss.blockFollows taken.rest = true) :
    ∃ taken', readSelectors whole (line.map (·.moved move)) after' = .ok taken' ∧
      Follows part whole taken taken' := by
  unfold readSelectors at read ⊢
  obtain ⟨selectors, first, read⟩ := bind_eq_ok_iff.1 read
  obtain ⟨_, first', same⟩ := copies.kept_readSelectorLine.of_eq_ok first
  rw [first', same, ok_bind, endsWithComma_moved]
  split at read
  · next comma =>
    obtain ⟨gap, broken, read⟩ := bind_eq_ok_iff.1 read
    obtain ⟨gap', broken', -, more⟩ := (brings_readLineBreak h).of_eq_ok broken
    have faces := more.faces
    have := gap.rest_lt
    have := length_skipNewlines gap.rest
    have := length_afterLine (StylusToScss.skipNewlines gap.rest)
    rw [if_pos comma, broken', ok_bind]
    simp only at read ⊢
    split at read
    · cases read
    · next some =>
      obtain ⟨others, rest, same⟩ := bind_eq_ok_iff.1 read
      cases same
      obtain ⟨some', more, alike⟩ := faces.lineOf some
      generalize StylusToScss.lineOf (StylusToScss.skipNewlines gap.rest) = next at *
      generalize StylusToScss.lineOf (StylusToScss.skipNewlines gap'.rest) = next' at *
      rw [if_neg some']
      cases alike with
      | moved copies =>
        obtain ⟨others', rest', value, more⟩ :=
          brings_readSelectors next _ copies more rest follows
        rw [rest']
        exact ⟨_, rfl, congrArg (selectors ++ ·) value, more⟩
      | property plain _ _ alone =>
        rw [readSelectors_last plain] at rest
        obtain ⟨_, -, last⟩ := bind_eq_ok_iff.1 rest
        cases last
        exact absurd (alone.symm.trans follows) Bool.false_ne_true
  · next ends =>
    cases read
    rw [if_neg ends]
    exact ⟨_, rfl, rfl, h⟩
termination_by 16 * after.length + 2

end

/-- The statements that are read in the part are read in the whole. -/
theorem kept_readStatements (tokens : List Token) {tokens' : List Token}
    (h : Amends part whole tokens tokens') :
    Kept (readStatements part tokens) (readStatements whole tokens') := by
  have faces := h.faces
  generalize here : StylusToScss.skipNewlines tokens = text at faces
  generalize here' : StylusToScss.skipNewlines tokens' = text' at faces
  cases faces with
  | ends kind kind' =>
    rw [readStatements_done (here ▸ kind), readStatements_done (here' ▸ kind')]
    exact .ok rfl
  | indent kind =>
    rw [readStatements_indent here kind]
    exact False.elim
  | @dedent _ _ rest rest' kind kind' more =>
    have less := length_of_skipNewlines here
    rw [readStatements_eq part, readStatements_eq whole, here, here']
    simp only [kind, kind']
    exact kept_readStatements rest more
  | @content first first' rest rest' content same behind alike =>
    have content' : first'.kind.endsLine = false := same ▸ content
    have less := length_of_skipNewlines here
    rw [readStatements_content here content, readStatements_content here' content']
    refine (brings_readStatement first rest content content' behind alike).bind ?_
    rintro statement statement' ⟨value, more⟩
    have := statement.rest_le
    refine (kept_readStatements _ more).bind ?_
    rintro nodes _ rfl
    rw [value]
    exact .ok rfl
termination_by tokens.length

end Amends

end StylusToScss
