import StylusToScss.Proofs.Statement.LineNumbers
import StylusToScss.Proofs.Statement.Reading
import StylusToScss.Proofs.Value.Faithful

/-!
# No line is lost

The lines of a source on which its logical lines start are the lines of the statements and clauses
of its tree, in order (`Stylesheet.ofSource_lines`). The proof follows the readers of statements, by
the same recursion: the lines of what each of them reads are those of the tokens that it takes. A
line that ends with a comma leads on to the next one only if it holds selectors; every other line
that is read ends in a value or with a parenthesis (`ClosesLine`).
-/

namespace StylusToScss

variable {source : String} {tokens rest line after : List Token} {token first keyword : Token}

/-! ## Lines that end in a value -/

/-- There is a last token, and it is no comma. -/
def ClosesLine (tokens : List Token) : Prop :=
  ∃ token ∈ tokens.getLast?, (token.kind == .comma) = false

theorem ClosesLine.append (h : ClosesLine tokens) (before : List Token) :
    ClosesLine (before ++ tokens) := by
  obtain ⟨token, last, other⟩ := h
  refine ⟨token, ?_, other⟩
  rw [List.getLast?_append, last]
  rfl

theorem ClosesLine.suffix {part : List Token} (h : ClosesLine part) (suffix : part <:+ tokens) :
    ClosesLine tokens := by
  obtain ⟨before, rfl⟩ := suffix
  exact h.append before

theorem ClosesLine.endsWithComma (h : ClosesLine tokens) : endsWithComma tokens = false := by
  obtain ⟨token, last, other⟩ := h
  rw [StylusToScss.endsWithComma, last]
  exact other

theorem line_readSequence (site : ValueSite) (tokens : List Token) :
    Yields (·.value.line = site.line) (fun _ => True) (readSequence site tokens) := by
  unfold readSequence
  split
  · trivial
  · split
    · trivial
    · exact (Yields.any _).bind fun first _ => (Yields.any _).bind fun more _ => rfl

theorem line_ofTokens (tokens : List Token) (number : Nat) :
    Yields (·.line = number) (fun _ => True) (Expression.ofTokens tokens number) := by
  have atSite := ValueSite.line_ofTokens tokens number
  have list : Yields (·.value.line = (ValueSite.ofTokens tokens number).line) (fun _ => True)
      (readList (.ofTokens tokens number) tokens) := by
    unfold readList
    refine (line_readSequence _ tokens).bind fun first hf => (Yields.any _).bind fun more _ => ?_
    show (Expression.ofSequences _ _ _).line = _
    unfold Expression.ofSequences
    split
    · exact hf
    · rfl
  unfold Expression.ofTokens
  refine list.bind fun whole hw => ?_
  split
  · exact hw.trans atSite
  · trivial

/-- The tokens of a value end in it. -/
theorem closes_valueOf (h : Addressed tokens) (anchor : Token) (number : Nat) :
    Yields (fun e => ClosesLine tokens ∧ e.line = number) (fun _ => True)
      (valueOf tokens anchor number) := by
  unfold valueOf
  split
  · trivial
  · refine ((spells_ofTokens h number).and (line_ofTokens tokens number)).mono ?_
    intro e ⟨⟨spells, grouped⟩, line⟩
    refine ⟨?_, line⟩
    obtain ⟨leaf, last, other⟩ := Node.endsInValue_leaves (.expression e)
      (Node.isGrouped_expression.2 grouped)
    have kinds := congrArg List.getLast? spells.kinds
    rw [List.getLast?_map, List.getLast?_map, ← Node.leaves_expression, last] at kinds
    obtain ⟨token, lastToken, same⟩ := Option.map_eq_some_iff.1 kinds.symm
    refine ⟨token, lastToken, ?_⟩
    cases comma : token.kind == .comma with
    | false => rfl
    | true =>
      rw [beq_iff_eq.1 comma] at same
      rw [show leaf.kind = .comma from same.symm] at other
      exact other

/-! ## Readers of a line -/

/-- The reader of a line ends with a value, and its node is a statement of the given line. -/
abbrev ClosesWith (number : Nat) (tokens : List Token) (x : Read Node) : Prop :=
  Yields (fun node => ClosesLine tokens ∧ node.lines = [number]) (fun _ => True) x

theorem closes_readExpression (h : Addressed tokens) (anchor : Token) (number : Nat) :
    ClosesWith number tokens (readExpression tokens anchor number) := by
  unfold readExpression
  refine (closes_valueOf h anchor number).bind fun e ⟨closes, line⟩ => ⟨closes, ?_⟩
  show [e.line] = [number]
  rw [line]

theorem closes_readAssignment (name : String) (op : Token) {value : List Token}
    (h : Addressed value) (number : Nat) (suffix : value <:+ tokens) :
    ClosesWith number tokens (readAssignment name op value number) := by
  unfold readAssignment
  exact (closes_valueOf h op number).bind fun e ⟨closes, _⟩ => ⟨closes.suffix suffix, rfl⟩

theorem closes_propertyOf {value : List Token} (h : Addressed value) (name : List Token)
    (anchor : Token) (number : Nat) (suffix : value <:+ tokens) :
    ClosesWith number tokens (propertyOf source name value anchor number) := by
  unfold propertyOf
  refine (Yields.any _).bind fun text _ => (Yields.any _).bind fun first _ => ?_
  refine (Yields.any _).bind fun segments _ => ?_
  exact (closes_valueOf h anchor number).bind fun e ⟨closes, _⟩ => ⟨closes.suffix suffix, rfl⟩

/-- The last tokens of a line are a part of it. -/
theorem suffix_tokensBetween (start : Nat) :
    Yields (· <:+ tokens) (fun _ => True) (tokensBetween tokens start tokens.length) := by
  unfold tokensBetween
  split
  · rw [List.take_length]
    exact List.drop_suffix _ _
  · trivial

theorem closes_readColonProperty (h : Addressed tokens) (colon number : Nat) :
    ClosesWith number tokens (readColonProperty source tokens colon number) := by
  unfold readColonProperty
  refine (Yields.any _).bind fun anchor _ => (Yields.any _).bind fun name _ => ?_
  refine (suffix_tokensBetween _).bind fun value suffix => ?_
  split
  · exact (Yields.any _).bind fun text _ => trivial
  · exact closes_propertyOf (h.suffix suffix) name anchor number suffix

theorem closes_readBlankProperty (h : Addressed tokens) (run number : Nat) :
    ClosesWith number tokens (readBlankProperty source tokens run number) := by
  unfold readBlankProperty
  refine (Yields.any _).bind fun name _ => (suffix_tokensBetween _).bind fun value suffix => ?_
  refine (Yields.any _).bind fun anchor _ => ?_
  exact closes_propertyOf (h.suffix suffix) name anchor number suffix

theorem closes_readProperty (h : Addressed tokens) (number : Nat) :
    ClosesWith number tokens (readProperty source tokens number) := by
  unfold readProperty
  refine (Yields.any _).bind fun first _ => ?_
  simp only
  split
  · split
    · trivial
    · exact closes_readColonProperty h _ number
  · split
    · exact closes_readExpression h first number
    · refine (Yields.any _).bind fun continues _ => ?_
      split
      · exact closes_readExpression h first number
      · exact closes_readBlankProperty h _ number

theorem closes_readCondition (h : Addressed line) (keyword : Token) :
    Yields (fun _ => ClosesLine line) (fun _ => True) (readCondition keyword line) := by
  unfold readCondition
  refine (closes_valueOf h keyword _).bind fun e ⟨closes, _⟩ => ?_
  split
  · exact closes
  · exact closes

theorem suffix_readLoopKey (tokens : List Token) :
    Yields (·.2 <:+ tokens) (fun _ => True) (readLoopKey tokens) := by
  unfold readLoopKey
  split
  · split
    · exact (List.suffix_cons _ _).trans (List.suffix_cons _ _)
    · trivial
  · exact List.suffix_rfl

theorem closes_readLoopHead (h : Addressed line) (first : Token) (number : Nat) :
    Yields (fun _ => ClosesLine line) (fun _ => True) (readLoopHead first line number) := by
  unfold readLoopHead
  split
  · next item span rest =>
    refine (suffix_readLoopKey rest).bind fun (key, behind) suffix => ?_
    have suffix := suffix.trans (List.suffix_cons ⟨.ident item, span⟩ rest)
    simp only at suffix ⊢
    split
    · have suffix := (List.suffix_cons _ _).trans suffix
      refine (closes_valueOf (h.suffix suffix) _ number).bind fun e ⟨closes, _⟩ => ?_
      exact closes.suffix suffix
    · trivial
  · trivial

/-- The parenthesis that closes another one stands where it is found. -/
theorem kind_of_closingParen? {depth n : Nat} (h : closingParen? depth tokens = some n) :
    tokens[n]?.map (·.kind) = some .rightParen := by
  fun_induction closingParen? depth tokens generalizing n with
  | case1 => cases h
  | case3 depth token rest kind =>
    cases h
    exact congrArg some kind
  | case2 _ _ _ _ ih | case4 _ _ _ _ _ ih | case5 _ _ _ _ _ ih =>
    obtain ⟨m, found, rfl⟩ := Option.map_eq_some_iff.1 h
    exact ih found

/-- A definition ends with the parenthesis that closes its parameters. -/
theorem closes_definitionName? {name : String} (h : definitionName? tokens = some name) :
    ClosesLine tokens := by
  unfold definitionName? at h
  split at h
  · next openParen rest =>
    split at h
    · split at h
      · next form =>
        simp only [Bool.and_eq_true, beq_iff_eq] at form
        have closing := kind_of_closingParen? form.2
        obtain ⟨last, here, kind⟩ := Option.map_eq_some_iff.1 closing
        refine ⟨last, ?_, by rw [kind]; rfl⟩
        rw [List.getLast?_cons_cons, List.getLast?_eq_getElem?]
        exact here
      · cases h
    · cases h
  · cases h

theorem lines_readImport (first : Token) (rest : List Token) (number : Nat) :
    Yields (·.lines = [number]) (fun _ => True) (readImport source first rest number) := by
  unfold readImport
  split
  · trivial
  · split
    · rfl
    · exact (Yields.any _).bind fun text _ => rfl

/-! ## Readers of statements -/

/-- The numbers are the lines of what is read, and then those of the tokens that are left. -/
abbrev Counts {n : Nat} {α : Type} {tokens : List Token} (numbers : List Nat) (lines : α → List Nat)
    (x : ReadResult n α tokens) : Prop :=
  Yields (fun taken => numbers = lines taken.value ++ lineNumbers false taken.rest ∧
    Addressed taken.rest) (fun _ => True) x

theorem addressed_of_skipNewlines {next : List Token} (h : Addressed tokens)
    (skipped : skipNewlines tokens = next) : Addressed next :=
  h.suffix (skipped ▸ skipNewlines_suffix tokens)

/-- The line break that follows a line is no line of its own. -/
theorem counts_readLineBreak (continued : Bool) (h : Addressed tokens) :
    Yields (fun gap => lineNumbers continued tokens = lineNumbers continued gap.rest ∧
      Addressed gap.rest) (fun _ => True) (readLineBreak tokens) := by
  unfold readLineBreak
  split
  · exact ⟨lineNumbers_of_endsLine continued rfl (by rintro ⟨⟩), h.suffix (List.suffix_cons _ _)⟩
  · trivial

/-- Behind a line that starts with no at-word, its selectors go on if it ends with a comma. -/
theorem numbers_of_ne_atWord (plain : ∀ word, first.kind ≠ .atWord word) :
    lineNumbers (leadsOn first line) (pastRule first after) =
      lineNumbers (endsWithComma (first :: line)) after := by
  unfold leadsOn pastRule
  split
  · next word kind => exact absurd kind (plain word)
  · rfl

/-- Behind a line that starts with an at-word stands a new statement. -/
theorem numbers_of_atWord {word : String} (kind : first.kind = .atWord word) :
    lineNumbers (leadsOn first line) (pastRule first after) = lineNumbers false
      (if word = "import" ∨ word = "require" then after else afterBlock after) := by
  unfold leadsOn pastRule
  rw [kind]

theorem numbers_of_closesLine (plain : ∀ word, first.kind ≠ .atWord word)
    (closes : ClosesLine (first :: line)) :
    lineNumbers (leadsOn first line) (pastRule first after) = lineNumbers false after := by
  rw [numbers_of_ne_atWord plain, closes.endsWithComma]

theorem ne_atWord_of_ident {word : String} (kind : first.kind = .ident word) (other : String) :
    first.kind ≠ .atWord other := by
  rw [kind]
  rintro ⟨⟩

theorem line_readBlock (number : Nat) (tokens : List Token) :
    Yields (·.value.line = number) (fun _ => True) (readBlock source number tokens) := by
  unfold readBlock
  split
  · trivial
  · split
    · exact (Yields.any _).bind fun body _ => rfl
    · trivial

mutual

theorem counts_readBody (tokens : List Token) (h : Addressed tokens) :
    Counts (lineNumbers false tokens) nodeLines (readBody source tokens) := by
  unfold readBody
  split
  · next none => exact ⟨lineNumbers_of_skipNewlines none false, addressed_of_skipNewlines h none⟩
  · next token rest some =>
    have here := addressed_of_skipNewlines h some
    have less := length_of_skipNewlines some
    rw [lineNumbers_of_skipNewlines some]
    split
    · exact ⟨rfl, here⟩
    · trivial
    · next dedent =>
      exact ⟨lineNumbers_of_endsLine false (by rw [dedent]; rfl) (by rw [dedent]; rintro ⟨⟩),
        here.suffix (List.suffix_cons _ _)⟩
    · next eof indent dedent =>
      have content := content_of_skipNewlines some eof indent dedent
      refine (counts_readStatement token rest here content).bind fun statement ⟨hs, hr⟩ => ?_
      have := statement.rest_le
      refine (counts_readBody statement.rest hr).bind fun more ⟨hm, hr⟩ => ⟨?_, hr⟩
      show _ = nodeLines (statement.value.toList ++ more.value) ++ _
      rw [hs, hm, nodeLines_append, List.append_assoc]
      rfl
termination_by 16 * tokens.length + 9

theorem counts_readBlock (number : Nat) (tokens : List Token) (h : Addressed tokens) :
    Counts (lineNumbers false tokens) (fun block => nodeLines block.nodes)
      ((readBlock source number tokens)) := by
  unfold readBlock
  split
  · trivial
  · next token rest some =>
    have here := addressed_of_skipNewlines h some
    have less := length_of_skipNewlines some
    rw [lineNumbers_of_skipNewlines some]
    split
    · next indent =>
      have kind := beq_iff_eq.1 indent
      rw [lineNumbers_of_endsLine false (by rw [kind]; rfl) (by rw [kind]; rintro ⟨⟩)]
      exact (counts_readBody rest (here.suffix (List.suffix_cons _ _))).bind fun body hb => hb
    · trivial
termination_by 16 * tokens.length + 1

theorem counts_readStatement (first : Token) (rest : List Token)
    (h : Addressed (first :: rest)) (content : first.kind.endsLine = false) :
    Counts (lineNumbers false (first :: rest)) (fun node => nodeLines node.toList)
      (readStatement source first rest) := by
  have behind := h.suffix ((afterLine_suffix rest).trans (List.suffix_cons _ _))
  have isLine := lineOf_cons content rest
  unfold readStatement
  split
  · next none =>
    exact ⟨lineNumbers_semicolons content (isLine.trans none) false, behind⟩
  · next start line cut =>
    have cut := isLine.trans cut
    have := length_afterLine rest
    rw [lineNumbers_line content cut]
    have inLine : Addressed (start :: line) := fun token ht =>
      h token ((lineOf_isPrefix _).subset (cut ▸ ht))
    refine (counts_readNode start line (afterLine rest) inLine behind).bind fun node ⟨hn, hr⟩ => ?_
    refine ⟨?_, hr⟩
    show _ = nodeLines [node.value] ++ _
    rw [hn, nodeLines, nodeLines, List.append_nil]
    rfl
termination_by 16 * rest.length + (16 + 8)

theorem counts_readNode (first : Token) (line after : List Token)
    (h : Addressed (first :: line)) (next : Addressed after) :
    Counts (first.span.line :: lineNumbers (leadsOn first line) (pastRule first after)) Node.lines
      (readNode source first line after) := by
  have behind : Addressed line := h.suffix (List.suffix_cons _ _)
  unfold readNode
  simp only
  split
  · next word kind =>
    rw [numbers_of_atWord kind]
    by_cases isImport : word = "import" ∨ word = "require"
    · rw [if_pos isImport, if_pos isImport]
      refine (lines_readImport first line _).bind fun node number => ⟨?_, next⟩
      exact congrArg (· ++ _) number.symm
    · rw [if_neg isImport, if_neg isImport]
      exact ⟨rfl, next.suffix (afterBlock_suffix after)⟩
  · next kind =>
    exact counts_readConditional first line after (ne_atWord_of_ident kind) behind next
  · next kind =>
    exact counts_readConditional first line after (ne_atWord_of_ident kind) behind next
  · trivial
  · next kind =>
    refine (closes_readLoopHead behind first _).bind fun head closes => ?_
    refine (counts_readBlock _ after next).bind fun block ⟨hb, hr⟩ => ⟨?_, hr⟩
    rw [numbers_of_closesLine (ne_atWord_of_ident kind) (closes.suffix (List.suffix_cons _ _)), hb]
    show _ = (Node.loop _ _ _ _ _).lines ++ _
    rw [Node.lines_loop]
    rfl
  · next kind =>
    refine (closes_valueOf behind first _).bind fun value ⟨closes, number⟩ => ⟨?_, next⟩
    rw [numbers_of_closesLine (ne_atWord_of_ident kind) (closes.suffix (List.suffix_cons _ _))]
    show _ = [value.line] ++ _
    rw [number]
    rfl
  · next plain _ _ _ _ _ => exact counts_readDeclaration first line after plain h next
termination_by 16 * after.length + 7

theorem counts_readConditional (keyword : Token) (line after : List Token)
    (plain : ∀ word, keyword.kind ≠ .atWord word) (h : Addressed line) (next : Addressed after) :
    Counts (keyword.span.line :: lineNumbers (leadsOn keyword line) (pastRule keyword after))
      Node.lines (readConditional source keyword line after) := by
  unfold readConditional
  refine (closes_readCondition h keyword).bind fun condition closes => ?_
  refine (counts_readBlock _ after next).bind fun block ⟨hb, hr⟩ => ?_
  have := block.rest_lt
  refine (counts_readAlternatives block.rest hr).bind fun alternatives ⟨ha, hr⟩ => ⟨?_, hr⟩
  rw [numbers_of_closesLine plain (closes.suffix (List.suffix_cons _ _)), hb, ha]
  show _ = (Node.conditional _ _ _ _).lines ++ _
  rw [Node.lines_conditional, ← List.append_assoc]
  rfl
termination_by 16 * after.length + 6

theorem counts_readAlternatives (tokens : List Token) (h : Addressed tokens) :
    Counts (lineNumbers false tokens) nodeLines (readAlternatives source tokens) := by
  unfold readAlternatives
  split
  · exact ⟨rfl, h⟩
  · next word rest some =>
    have here := addressed_of_skipNewlines h some
    have behind := here.suffix ((afterLine_suffix rest).trans (List.suffix_cons _ _))
    have := length_afterLine rest
    have := length_of_skipNewlines some
    split
    · next isElse =>
      have kind := Kind.isWord_iff.1 isElse
      rw [lineNumbers_of_skipNewlines some]
      simp only
      have content : word.kind.endsLine = false := by rw [kind]; rfl
      have clause := lineOf_cons content rest
      rw [withoutSemicolons_cons _ (by rw [kind]; rintro ⟨⟩)] at clause ⊢
      rw [tokenAt_zero, ok_bind, List.drop_one, List.tail_cons, lineNumbers_line content clause]
      have inClause : Addressed (lineOf (word :: rest)) := fun token ht =>
        here token ((lineOf_isPrefix _).subset ht)
      rw [clause] at inClause
      have plain := ne_atWord_of_ident kind
      generalize withoutSemicolons (rest.takeWhile fun t => !t.kind.endsLine) = line at inClause ⊢
      split
      · refine ((counts_readBlock _ _ behind).and (line_readBlock _ _)).bind ?_
        intro block ⟨⟨hb, hr⟩, same⟩
        refine ⟨?_, hr⟩
        rw [numbers_of_closesLine plain ⟨word, rfl, by rw [kind]; rfl⟩, hb]
        show _ = nodeLines [.block block.value] ++ _
        rw [nodeLines, nodeLines, Node.lines_block, same, List.append_nil]
        rfl
      · next keyword line =>
        have inLine := inClause.suffix ((List.suffix_cons _ _).trans (List.suffix_cons _ _))
        split
        · refine (closes_readCondition inLine keyword).bind fun condition closes => ?_
          have ends : line <:+ word :: keyword :: line :=
            (List.suffix_cons _ _).trans (List.suffix_cons _ _)
          refine (counts_readBlock _ (afterLine rest) behind).bind fun block ⟨hb, hr⟩ => ?_
          have := block.rest_lt
          refine (counts_readAlternatives block.rest hr).bind fun more ⟨hm, hr⟩ => ⟨?_, hr⟩
          rw [numbers_of_closesLine plain (closes.suffix ends), hb, hm]
          show _ = nodeLines (.conditional _ _ [] _ :: more.value) ++ _
          rw [nodeLines, Node.lines_conditional, nodeLines, List.append_nil, ← List.append_assoc]
          rfl
        · trivial
    · exact ⟨rfl, h⟩
termination_by 16 * tokens.length + 5

theorem counts_readDeclaration (first : Token) (line after : List Token)
    (plain : ∀ word, first.kind ≠ .atWord word) (h : Addressed (first :: line))
    (next : Addressed after) :
    Counts (first.span.line :: lineNumbers (leadsOn first line) (pastRule first after)) Node.lines
      (readDeclaration source first line after) := by
  have behindOperator {op : Token} (value : List Token) : value <:+ first :: op :: value :=
    (List.suffix_cons _ _).trans (List.suffix_cons _ _)
  have lineOnly {x : Read Node} (closes : ClosesWith first.span.line (first :: line) x) :
      Counts (first.span.line :: lineNumbers (leadsOn first line) (pastRule first after)) Node.lines
        (do return .nothing (← x) : ReadResult 0 Node after) := by
    refine closes.bind fun node ⟨closes, number⟩ => ⟨?_, next⟩
    rw [numbers_of_closesLine plain closes]
    exact congrArg (· ++ _) number.symm
  unfold readDeclaration
  simp only
  split
  · exact lineOnly (closes_readAssignment _ _ (h.suffix (behindOperator _)) _ (behindOperator _))
  · exact lineOnly (closes_readAssignment _ _ (h.suffix (behindOperator _)) _ (behindOperator _))
  · rw [numbers_of_ne_atWord plain]
    split
    · split
      · next name form =>
        refine (Yields.any _).bind fun inside _ => (Yields.any _).bind fun params _ => ?_
        refine (counts_readBlock _ after next).bind fun block ⟨hb, hr⟩ => ⟨?_, hr⟩
        rw [(closes_definitionName? form).endsWithComma, hb]
        show _ = (Node.definition _ _ _ _).lines ++ _
        rw [Node.lines_definition]
        rfl
      · exact counts_readGroup _ _ after next
    · rw [← numbers_of_ne_atWord plain]
      split
      · exact lineOnly (closes_readExpression h first _)
      · split
        · rw [numbers_of_ne_atWord plain]
          exact counts_readGroup _ _ after next
        · exact lineOnly (closes_readProperty h _)
termination_by 16 * after.length + 4

theorem counts_readGroup (number : Nat) (line after : List Token) (next : Addressed after) :
    Counts (number :: lineNumbers (endsWithComma line) after) Node.lines
      (readGroup source number line after) := by
  unfold readGroup
  refine (counts_readSelectors line after next).bind fun selectors ⟨hs, hr⟩ => ?_
  have := selectors.rest_le
  refine ((counts_readBlock number selectors.rest hr).and (line_readBlock number _)).bind ?_
  intro block ⟨⟨hb, hr⟩, same⟩
  refine ⟨?_, hr⟩
  show _ = (Node.group _ _).lines ++ _
  rw [Node.lines_group, same, hs, hb]
  rfl
termination_by 16 * after.length + 3

theorem counts_readSelectors (line after : List Token) (next : Addressed after) :
    Counts (lineNumbers (endsWithComma line) after) (fun _ => [])
      (readSelectors source line after) := by
  unfold readSelectors
  refine (Yields.any _).bind fun selectors _ => ?_
  split
  · next comma =>
    rw [comma]
    refine (counts_readLineBreak true next).bind fun gap ⟨hg, hr⟩ => ?_
    simp only
    split
    · trivial
    · next some =>
      have := length_afterLine (skipNewlines gap.rest)
      have := length_skipNewlines gap.rest
      have := gap.rest_lt
      have further := addressed_of_skipNewlines hr rfl
      refine (counts_readSelectors _ _ (further.suffix (afterLine_suffix _))).bind ?_
      intro more ⟨hm, hr⟩
      refine ⟨?_, hr⟩
      rw [hg, lineNumbers_of_skipNewlines rfl, lineNumbers_continued some]
      exact hm
  · next ends =>
    rw [Bool.eq_false_iff.2 ends]
    exact ⟨rfl, next⟩
termination_by 16 * after.length + 2

end

theorem counts_readStatements (tokens : List Token) (h : Addressed tokens) :
    Yields (nodeLines · = lineNumbers false tokens) (fun _ => True)
      (readStatements source tokens) := by
  unfold readStatements
  split
  · next none =>
    show nodeLines [] = lineNumbers false tokens
    rw [lineNumbers_of_skipNewlines none, lineNumbers]
    rfl
  · next token rest some =>
    have here := addressed_of_skipNewlines h some
    have less := length_of_skipNewlines some
    rw [lineNumbers_of_skipNewlines some]
    split
    · next ended =>
      show nodeLines [] = _
      rw [lineNumbers, if_pos ended]
      rfl
    · trivial
    · next dedent =>
      rw [lineNumbers_of_endsLine false (by rw [dedent]; rfl) (by rw [dedent]; rintro ⟨⟩)]
      exact counts_readStatements rest (here.suffix (List.suffix_cons _ _))
    · next eof indent dedent =>
      have content := content_of_skipNewlines some eof indent dedent
      refine (counts_readStatement token rest here content).bind fun statement ⟨hs, hr⟩ => ?_
      have := statement.rest_le
      refine (counts_readStatements statement.rest hr).bind fun more hm => ?_
      rw [hs, ← hm]
      exact nodeLines_append _ _
termination_by tokens.length

/-- The lines on which the logical lines of a source start ascend, and are those of the statements
and clauses of its tree, in order. -/
theorem Stylesheet.ofSource_lines {sheet : Stylesheet} (h : ofSource source = .ok sheet) :
    ∃ tokens, tokenize source = .ok tokens ∧ (lineNumbers false tokens).Pairwise (· < ·) ∧
      nodeLines sheet.nodes = lineNumbers false tokens := by
  unfold ofSource at h
  split at h
  · next tokens cut =>
    have addressed := addressed_of_isCut fun token ht => ⟨source, tokens, cut, ht⟩
    refine ⟨tokens, cut, pairwise_lineNumbers false (rising_of_tokenize cut), ?_⟩
    have read : Yields (nodeLines ·.nodes = lineNumbers false tokens) (fun _ => True)
        (ofTokens source tokens) :=
      (counts_readStatements tokens addressed).bind fun nodes hn => hn
    exact read.of_eq_ok h
  · cases h

/-- Selectors on two lines, a line of semicolons, a rule without counterpart that has a block, and a
conditional with an alternative. -/
theorem lines_clauses : ∃ sheet tokens,
    Stylesheet.ofSource "a,\nb\n  ;;\n  w 1\n\n@c d\n  e f\nif g\n  h\nelse\n  i\n" = .ok sheet ∧
    tokenize "a,\nb\n  ;;\n  w 1\n\n@c d\n  e f\nif g\n  h\nelse\n  i\n" = .ok tokens ∧
    (lineNumbers false tokens).Pairwise (· < ·) ∧
    nodeLines sheet.nodes = lineNumbers false tokens ∧
    nodeLines sheet.nodes = [1, 4, 6, 8, 9, 10, 11] := by
  have lines : (Stylesheet.ofSource
      "a,\nb\n  ;;\n  w 1\n\n@c d\n  e f\nif g\n  h\nelse\n  i\n").toOption.map
        (nodeLines ·.nodes) = some [1, 4, 6, 8, 9, 10, 11] := by
    decide +kernel
  cases read : Stylesheet.ofSource _ with
  | error fault =>
    rw [read] at lines
    cases lines
  | ok sheet =>
    rw [read] at lines
    obtain ⟨tokens, cut, ascending, same⟩ := Stylesheet.ofSource_lines read
    exact ⟨sheet, tokens, rfl, cut, ascending, same, Option.some.inj lines⟩

end StylusToScss
