import StylusToScss.Proofs.Statement.Meets
import StylusToScss.Proofs.Statement.Reading

/-!
# Statements of a text within a source

Where a text is a part of a whole source, its statements are those of the part, with their lines
raised, and then come the statements of what stands behind it (`Embedding.carries_readStatements`).
The proof follows the readers of statements, by the same recursion. There is one theorem for each
reader; it says what is read, and that the tokens which are left correspond again.
-/

namespace StylusToScss

variable {tokens tokens' rest rest' line after after' : List Token} {token first keyword : Token}
  {depth : Nat} {inLine : Bool}

/-! ## Readers by what they find -/

section
variable {source : String}

theorem readBody_dedent (here : skipNewlines tokens = token :: rest) (kind : token.kind = .dedent) :
    readBody source tokens = .ok ((Taken.first []).loose.ofSkipped here) := by
  rw [readBody]
  split
  · next none => cases here.symm.trans none
  · next found =>
    cases here.symm.trans found
    simp only [kind]

theorem readBody_indent (here : skipNewlines tokens = token :: rest) (kind : token.kind = .indent) :
    readBody source tokens = .error (token.fault .unexpectedIndentation) := by
  rw [readBody]
  split
  · next none => cases here.symm.trans none
  · next found =>
    cases here.symm.trans found
    simp only [kind]

theorem readBody_content (here : skipNewlines tokens = token :: rest)
    (content : token.kind.endsLine = false) : readBody source tokens = do
      let statement ← readStatement source token rest
      let more ← readBody source statement.rest
      let nodes := statement.andThen more fun node nodes => node.toList ++ nodes
      return nodes.behind.loose.ofSkipped here := by
  rw [readBody]
  split
  · next none => cases here.symm.trans none
  · next found =>
    cases here.symm.trans found
    split
    · next kind => rw [kind] at content; cases content
    · next kind => rw [kind] at content; cases content
    · next kind => rw [kind] at content; cases content
    · rfl

theorem readBlock_indent (number : Nat) (here : skipNewlines tokens = token :: rest)
    (kind : token.kind = .indent) : readBlock source number tokens = do
      let body ← readBody source rest
      return (body.map fun nodes => ⟨nodes, number⟩).behind.ofSkipped here := by
  rw [readBlock]
  split
  · next none => cases here.symm.trans none
  · next found =>
    cases here.symm.trans found
    rw [if_pos (by rw [kind]; rfl)]

theorem readBlock_other (number : Nat) (other : (firstToken (skipNewlines tokens)).kind ≠ .indent) :
    readBlock source number tokens =
      .error ((firstToken (skipNewlines tokens)).fault .blockExpected) := by
  rw [readBlock]
  split
  · next none => rw [none]; rfl
  · next found =>
    rw [found] at other
    rw [if_neg (by simpa [firstToken] using other), found]
    rfl

theorem readAlternatives_other
    (other : (firstToken (skipNewlines tokens)).kind.isWord "else" = false) :
    readAlternatives source tokens = .ok (.nothing []) := by
  rw [readAlternatives]
  split
  · rfl
  · next word rest found =>
    rw [found] at other
    have other : word.kind.isWord "else" = false := other
    rw [other]
    rfl

/-- The alternative that an `else` line starts, with the tokens of the line behind it. -/
theorem readAlternatives_else {word : Token} (here : skipNewlines tokens = word :: rest)
    (isElse : word.kind = .ident "else") : readAlternatives source tokens =
      match withoutSemicolons (rest.takeWhile fun t => !t.kind.endsLine) with
      | [] => do
        let block ← readBlock source word.span.line (afterLine rest)
        let clause := (Taken.pastLine ()).after (block.map fun b => [.block b])
        return clause.behind.loose.ofSkipped here
      | keyword :: line =>
        if keyword.kind.isWord "if" || keyword.kind.isWord "unless" then do
          let condition ← readCondition keyword line
          let block ← readBlock source word.span.line (afterLine rest)
          let more ← readAlternatives source block.rest
          let clauses := block.andThen more fun b clauses =>
            .conditional condition b [] word.span.line :: clauses
          return ((Taken.pastLine ()).after clauses).behind.loose.ofSkipped here
        else .error (keyword.fault .malformedElse) := by
  rw [readAlternatives]
  split
  · next none => cases here.symm.trans none
  · next found =>
    cases here.symm.trans found
    rw [if_pos (by rw [isElse]; rfl)]
    simp only
    have solid : word.kind ≠ .semicolon := by
      rw [isElse]
      rintro ⟨⟩
    have behind := withoutSemicolons_cons (rest.takeWhile fun t => !t.kind.endsLine) solid
    cases line : withoutSemicolons (rest.takeWhile fun t => !t.kind.endsLine) with
    | nil =>
      rw [line] at behind
      simp only [behind]
      rfl
    | cons keyword line' =>
      rw [line] at behind
      simp only [behind]
      rfl

theorem readNode_declaration (plain : ∀ word, first.kind ≠ .atWord word)
    (other : ∀ word ∈ keywords, first.kind ≠ .ident word) :
    readNode source first line after = readDeclaration source first line after := by
  unfold readNode
  simp only
  split
  · next kind => exact absurd kind (plain _)
  · next kind => exact absurd kind (other _ (by decide))
  · next kind => exact absurd kind (other _ (by decide))
  · next kind => exact absurd kind (other _ (by decide))
  · next kind => exact absurd kind (other _ (by decide))
  · next kind => exact absurd kind (other _ (by decide))
  · rfl

theorem readDeclaration_assigns {name : String} (kind : first.kind = .ident name)
    {op : Token} (assigns : op.kind = .assign ∨ op.kind = .conditionalAssign) (value : List Token) :
    readDeclaration source first (op :: value) after = do
      return .nothing (← readAssignment name op value first.span.line) := by
  obtain ⟨_, span⟩ := first
  obtain ⟨_, span'⟩ := op
  cases kind
  unfold readDeclaration
  rcases assigns with kind | kind
  · cases kind
    rfl
  · cases kind
    rfl

theorem readDeclaration_other
    (other : ∀ name, first.kind = .ident name → assigns line = false) :
    readDeclaration source first line after =
      if blockFollows after then
        match definitionName? (first :: line) with
        | some name => do
          let inside ← tokensBetween (first :: line) 2 ((first :: line).length - 1)
          let params ← readParameters inside first.span.line
          let block ← readBlock source first.span.line after
          return (block.map fun b => .definition name params b first.span.line).loose
        | none => readGroup source first.span.line (first :: line) after
      else if startsCall (first :: line) then do
        return .nothing (← readExpression (first :: line) first first.span.line)
      else if endsWithComma (first :: line) then
        readGroup source first.span.line (first :: line) after
      else do
        return .nothing (← readProperty source (first :: line) first.span.line) := by
  unfold readDeclaration
  split
  · next kind => exact absurd (other _ kind) (by simp [assigns])
  · next kind => exact absurd (other _ kind) (by simp [assigns])
  · rfl

theorem readStatements_eq (source : String) (tokens : List Token) : readStatements source tokens =
    match skipNewlines tokens with
    | [] => .ok []
    | token :: rest =>
      match token.kind with
      | .endOfInput => .ok []
      | .indent => .error (token.fault .unexpectedIndentation)
      | .dedent => readStatements source rest
      | _ => do
        let statement ← readStatement source token rest
        return statement.value.toList ++ (← readStatements source statement.rest) := by
  rw [readStatements]
  split
  · next none => rw [none]
  · next token rest here =>
    obtain ⟨kind, span⟩ := token
    cases kind <;> rw [here]

theorem readStatements_skipNewlines {next : List Token}
    (h : skipNewlines tokens = skipNewlines next) :
    readStatements source tokens = readStatements source next := by
  rw [readStatements_eq source tokens, h, ← readStatements_eq]

theorem readStatements_indent (here : skipNewlines tokens = token :: rest)
    (kind : token.kind = .indent) :
    readStatements source tokens = .error (token.fault .unexpectedIndentation) := by
  rw [readStatements_eq, here]
  simp only [kind]

theorem readStatements_ends (here : skipNewlines tokens = token :: rest)
    (kind : token.kind = .endOfInput) : readStatements source tokens = .ok [] := by
  rw [readStatements_eq, here]
  simp only [kind]

theorem readStatements_content (here : skipNewlines tokens = token :: rest)
    (content : token.kind.endsLine = false) : readStatements source tokens = do
      let statement ← readStatement source token rest
      return statement.value.toList ++ (← readStatements source statement.rest) := by
  rw [readStatements_eq, here]
  obtain ⟨kind, span⟩ := token
  cases kind <;> first | rfl | cases content

theorem readLineBreak_other (other : (firstToken tokens).kind ≠ .newline) :
    readLineBreak tokens = .error ((firstToken tokens).fault .selectorExpected) := by
  unfold readLineBreak
  split
  · exact absurd rfl other
  · rfl

end

namespace Embedding

/-- The second reading gives the value of the first one, raised, and the tokens that both leave
correspond. -/
inductive Passes (e : Embedding) {n : Nat} {α : Type} (depth : Nat) (raise : α → α)
    {tokens tokens' : List Token} : Taken n α tokens → Taken n α tokens' → Prop
  | mk (value : α) {rest rest' : List Token} (le : rest.length + n ≤ tokens.length)
      (le' : rest'.length + n ≤ tokens'.length) (meets : e.Meets false depth rest rest')
      (clear : e.Clear false rest) :
      Passes e depth raise ⟨value, rest, le⟩ ⟨raise value, rest', le'⟩

variable {e : Embedding}

theorem Passes.of_eq {n : Nat} {α : Type} {raise : α → α} {tokens tokens' : List Token}
    {taken : Taken n α tokens} {taken' : Taken n α tokens'}
    (value : taken'.value = raise taken.value)
    (meets : e.Meets false depth taken.rest taken'.rest) (clear : e.Clear false taken.rest) :
    e.Passes depth raise taken taken' := by
  obtain ⟨_, _, _⟩ := taken
  obtain ⟨_, _, _⟩ := taken'
  cases value
  exact .mk _ _ _ meets clear

/-- A reading in the part and one in the whole. -/
abbrev Reads (e : Embedding) {n : Nat} {α : Type} (depth : Nat) (raise : α → α)
    {tokens tokens' : List Token} (x : ReadResult n α tokens) (x' : ReadResult n α tokens') :
    Prop :=
  Carries e.strict (e.Passes depth raise) x x'

/-- A reader of a line alone leaves what stands behind the line. -/
theorem Gives.reads {raise : Node → Node} {x x' : Read Node} (h : e.Gives raise x x')
    (meets : e.Meets false depth after after') (clear : e.Clear false after) :
    e.Reads depth raise (do return .nothing (← x) : ReadResult 0 Node after)
      (do return .nothing (← x') : ReadResult 0 Node after') := by
  refine h.bind ?_
  rintro node _ rfl
  exact .ok (.of_eq rfl meets clear)

/-- The line break between two selector lines. -/
theorem reads_readLineBreak (h : e.Meets false depth tokens tokens') (clear : e.Clear true tokens) :
    Carries e.strict (fun gap gap' => e.Meets false depth gap.rest gap'.rest ∧
      e.Clear true gap.rest) (readLineBreak tokens) (readLineBreak tokens') := by
  by_cases newline : (firstToken tokens).kind = .newline
  · cases h with
    | @newline _ _ token _ _ kind meets =>
      obtain ⟨_, span⟩ := token
      cases kind
      exact .ok ⟨meets, clear.tail rfl (by simp)⟩
    | @content _ _ token _ _ content =>
      have newline : token.kind = .newline := newline
      rw [newline] at content
      cases content
    | indent kind | dedent kind | ends kind => cases kind.symm.trans newline
    | gap _ _ ended =>
      cases tokens with
      | nil => cases newline
      | cons token rest =>
        rcases ended token rfl with kind | kind <;> cases kind.symm.trans newline
  · have newline' : e.strict → (firstToken tokens').kind ≠ .newline := by
      intro strict
      rw [h.firstToken_eq strict]
      exact newline
    rw [readLineBreak_other newline]
    intro strict
    rw [readLineBreak_other (newline' strict)]
    exact congrArg Except.error (h.fault strict _)

theorem Faces.isWord (h : e.Faces depth tokens tokens')
    (other : (firstToken tokens).kind.isWord "else" = false) :
    (firstToken tokens').kind.isWord "else" = false := by
  cases h with
  | content | indent => exact other
  | @dedent _ token token' _ _ _ kind' =>
    show token'.kind.isWord "else" = false
    rw [kind']
    rfl
  | ends =>
    cases more : e.more with
    | nil => rfl
    | cons token rest => exact (e.starts token (by rw [more]; rfl)).2.2

theorem selects_keyword {word : String} (mem : word ∈ keywords) (kind : first.kind = .ident word) :
    selects first line after = false := by
  have contains : keywords.contains word = true := List.contains_iff_mem.2 mem
  unfold selects declares
  rw [kind]
  simp only [contains]
  rfl

theorem selects_assigns {name : String} (kind : first.kind = .ident name)
    (assigns : assigns line = true) : selects first line after = false := by
  unfold selects declares
  rw [kind]
  simp [assigns]

mutual

theorem reads_readBody {depth : Nat} (tokens : List Token) {tokens' : List Token}
    (h : e.Meets false (depth + 1) tokens tokens') (clear : e.Clear false tokens) :
    e.Reads depth (raisedNodes e.move.lines) (readBody e.part tokens)
      (readBody e.whole tokens') := by
  have faces := h.faces
  generalize here : skipNewlines tokens = text at faces
  generalize here' : skipNewlines tokens' = text' at faces
  have clear := clear.of_skipNewlines here
  cases faces with
  | @content _ token rest rest' content meets =>
    have less := length_of_skipNewlines here
    rw [readBody_content here content, readBody_content here' content]
    refine (reads_readStatement token rest content meets clear).bind ?_
    rintro _ _ ⟨statement, le, -, meets, clear⟩
    refine (reads_readBody _ meets clear).bind ?_
    rintro _ _ ⟨more, -, -, meets, clear⟩
    refine .ok (.of_eq ?_ meets clear)
    cases statement <;> rfl
  | @indent _ token _ _ kind _ =>
    rw [readBody_indent here kind, readBody_indent here' kind]
    exact e.fault token _
  | dedent kind kind' _ meets =>
    rw [readBody_dedent here kind, readBody_dedent here' kind']
    exact .ok (.of_eq rfl meets (clear.tail (by rw [kind]; rfl) (by simp [kind])))
termination_by 16 * tokens.length + 9

theorem reads_readBlock {depth : Nat} (number : Nat) (tokens : List Token) {tokens' : List Token}
    (h : e.Meets false depth tokens tokens') (clear : e.Clear false tokens) :
    e.Reads depth (Block.renumbered (· + e.move.lines)) (readBlock e.part number tokens)
      (readBlock e.whole (number + e.move.lines) tokens') := by
  have faces := h.faces
  by_cases follows : (firstToken (skipNewlines tokens)).kind = .indent
  · generalize here : skipNewlines tokens = text at faces follows
    generalize here' : skipNewlines tokens' = text' at faces
    have clear := clear.of_skipNewlines here
    cases faces with
    | indent kind meets =>
      have less := length_of_skipNewlines here
      rw [readBlock_indent _ here kind, readBlock_indent _ here' kind]
      refine (reads_readBody _ meets (clear.tail (by rw [kind]; rfl) (by simp [kind]))).bind ?_
      rintro _ _ ⟨body, -, -, meets, clear⟩
      exact .ok (.of_eq rfl meets clear)
    | @content _ token _ _ content =>
      have follows : token.kind = .indent := follows
      rw [follows] at content
      cases content
    | dedent kind | ends kind => cases kind.symm.trans follows
  · have same := h.blockFollows
    have other : blockFollows tokens = false := by simpa [blockFollows] using follows
    rw [other] at same
    rw [readBlock_other _ follows]
    rw [readBlock_other _ (by simpa [blockFollows] using same)]
    exact fun strict => congrArg Except.error (faces.meets.fault strict _)
termination_by 16 * tokens.length + 1

theorem reads_readStatement {depth : Nat} (first : Token) (rest : List Token) {rest' : List Token}
    (content : first.kind.endsLine = false) (h : e.Meets true depth rest rest')
    (clear : e.Clear false (first :: rest)) :
    e.Reads depth (Option.map (Node.raised e.move.lines)) (readStatement e.part first rest)
      (readStatement e.whole (first.moved e.move) rest') := by
  obtain ⟨taken, behind⟩ := h.restOfLine
  have isLine := lineOf_cons content rest
  unfold readStatement
  rw [taken, ← List.map_cons, withoutSemicolons_moved]
  cases cut : withoutSemicolons (first :: rest.takeWhile fun token => !token.kind.endsLine) with
  | nil => exact .ok (.of_eq rfl behind (clear.semicolons content (isLine.trans cut)))
  | cons start line =>
    have := length_afterLine rest
    obtain ⟨texts, clear⟩ := clear.start content (isLine.trans cut)
    refine (reads_readNode start line (afterLine rest) behind texts clear).bind ?_
    rintro _ _ ⟨node, -, -, meets, clear⟩
    exact .ok (.of_eq rfl meets clear)
termination_by 16 * rest.length + (16 + 8)

theorem reads_readNode {depth : Nat} (first : Token) (line after : List Token) {after' : List Token}
    (h : e.Meets false depth after after')
    (texts : ∀ piece ∈ lineTexts first line after, e.SameText piece)
    (clear : e.Clear (selects first line after && endsWithComma (first :: line))
      (pastRule first after)) :
    e.Reads depth (Node.raised e.move.lines) (readNode e.part first line after)
      (readNode e.whole (first.moved e.move) (line.map (·.moved e.move)) after') := by
  by_cases keyword : ∃ word ∈ keywords, first.kind = .ident word
  · obtain ⟨word, mem, kind⟩ := keyword
    rw [selects_keyword mem kind, pastRule, kind] at clear
    have clear : e.Clear false after := clear
    unfold readNode
    simp only [Token.kind_moved, Token.line_moved, kind]
    have words : word = "if" ∨ word = "unless" ∨ word = "else" ∨ word = "for" ∨
        word = "return" := by
      simpa [keywords] using mem
    rcases words with rfl | rfl | rfl | rfl | rfl
    · exact reads_readConditional first line after h clear
    · exact reads_readConditional first line after h clear
    · exact e.fault first _
    · refine (e.gives_readLoopHead first line first.span.line).bind ?_
      rintro head _ rfl
      refine (reads_readBlock first.span.line after h clear).bind ?_
      rintro _ _ ⟨block, -, -, meets, clear⟩
      exact .ok (.of_eq Node.renumbered_loop.symm meets clear)
    · refine (e.gives_valueOf line first first.span.line).bind ?_
      rintro value _ rfl
      exact .ok (.of_eq Node.renumbered_expression.symm h clear)
  · have other : ∀ word ∈ keywords, first.kind ≠ .ident word :=
      fun word mem kind => keyword ⟨word, mem, kind⟩
    by_cases isAtWord : ∃ word, first.kind = .atWord word
    · obtain ⟨word, kind⟩ := isAtWord
      have quiet : selects first line after = false ∧ declares first line = false := by
        unfold selects declares
        rw [kind]
        exact ⟨rfl, rfl⟩
      rw [quiet.1, pastRule, kind] at clear
      unfold readNode
      simp only [Token.kind_moved, Token.line_moved, kind] at clear ⊢
      by_cases isImport : word = "import" ∨ word = "require"
      · rw [if_pos isImport] at clear
        rw [if_pos isImport, if_pos isImport]
        refine (e.gives_readImport first fun unquoted => texts line ?_).reads h clear
        unfold lineTexts
        rw [quiet.1, quiet.2, kind]
        simp [isImport, unquoted]
      · rw [if_neg isImport] at clear
        rw [if_neg isImport, if_neg isImport]
        exact .ok (.of_eq rfl h.afterBlock clear)
    · have plain : ∀ word, first.kind ≠ .atWord word := fun word kind => isAtWord ⟨word, kind⟩
      have past : pastRule first after = after := by
        unfold pastRule
        split
        · next kind => exact absurd kind (plain _)
        · rfl
      rw [past] at clear
      have plain' : ∀ word, (first.moved e.move).kind ≠ .atWord word := plain
      have other' : ∀ word ∈ keywords, (first.moved e.move).kind ≠ .ident word := other
      rw [readNode_declaration plain other, readNode_declaration plain' other']
      exact reads_readDeclaration first line after plain other h texts clear
termination_by 16 * after.length + 7

theorem reads_readConditional {depth : Nat} (keyword : Token) (line after : List Token)
    {after' : List Token} (h : e.Meets false depth after after') (clear : e.Clear false after) :
    e.Reads depth (Node.raised e.move.lines) (readConditional e.part keyword line after)
      (readConditional e.whole (keyword.moved e.move) (line.map (·.moved e.move)) after') := by
  unfold readConditional
  refine (e.gives_readCondition keyword line).bind ?_
  rintro condition _ rfl
  refine (reads_readBlock keyword.span.line after h clear).bind ?_
  rintro _ _ ⟨block, le, -, meets, clear⟩
  refine (reads_readAlternatives _ meets clear).bind ?_
  rintro _ _ ⟨alternatives, -, -, meets, clear⟩
  exact .ok (.of_eq Node.renumbered_conditional.symm meets clear)
termination_by 16 * after.length + 6

theorem reads_readAlternatives {depth : Nat} (tokens : List Token) {tokens' : List Token}
    (h : e.Meets false depth tokens tokens') (clear : e.Clear false tokens) :
    e.Reads depth (raisedNodes e.move.lines) (readAlternatives e.part tokens)
      (readAlternatives e.whole tokens') := by
  have faces := h.faces
  cases isElse : (firstToken (skipNewlines tokens)).kind.isWord "else" with
  | false =>
    rw [readAlternatives_other isElse, readAlternatives_other (faces.isWord isElse)]
    exact .ok (.of_eq rfl h clear)
  | true =>
    have isElse := Kind.isWord_iff.1 isElse
    generalize here : skipNewlines tokens = text at faces isElse
    generalize here' : skipNewlines tokens' = text' at faces
    have clear := clear.of_skipNewlines here
    cases faces with
    | @content _ word rest rest' content meets =>
      have isElse : word.kind = .ident "else" := isElse
      have := length_afterLine rest
      have := length_of_skipNewlines here
      obtain ⟨taken, behind⟩ := meets.restOfLine
      rw [readAlternatives_else here isElse, readAlternatives_else here' isElse, taken,
        withoutSemicolons_moved]
      have clause := lineOf_cons content rest
      rw [withoutSemicolons_cons _ (by rw [isElse]; rintro ⟨⟩)] at clause
      have clear := (clear.start content clause).2
      rw [selects_keyword (by decide) isElse, pastRule, isElse] at clear
      have clear : e.Clear false (afterLine rest) := clear
      cases withoutSemicolons (rest.takeWhile fun t => !t.kind.endsLine) with
      | nil =>
        refine (reads_readBlock word.span.line _ behind clear).bind ?_
        rintro _ _ ⟨block, -, -, meets, clear⟩
        exact .ok (.of_eq (congrArg ([·]) Node.renumbered_block.symm) meets clear)
      | cons keyword line =>
        simp only [List.map_cons]
        rw [Token.kind_moved]
        split
        · refine (e.gives_readCondition keyword line).bind ?_
          rintro condition _ rfl
          refine (reads_readBlock word.span.line _ behind clear).bind ?_
          rintro _ _ ⟨block, le, -, meets, clear⟩
          refine (reads_readAlternatives _ meets clear).bind ?_
          rintro _ _ ⟨more, -, -, meets, clear⟩
          refine .ok (.of_eq ?_ meets clear)
          show _ = Node.renumbered _ (.conditional condition block [] _) :: _
          rw [Node.renumbered_conditional]
          rfl
        · exact e.fault keyword _
    | indent kind | dedent kind | ends kind => cases kind.symm.trans isElse
termination_by 16 * tokens.length + 5

theorem reads_readDeclaration {depth : Nat} (first : Token) (line after : List Token)
    {after' : List Token} (plain : ∀ word, first.kind ≠ .atWord word)
    (other : ∀ word ∈ keywords, first.kind ≠ .ident word) (h : e.Meets false depth after after')
    (texts : ∀ piece ∈ lineTexts first line after, e.SameText piece)
    (clear : e.Clear (selects first line after && endsWithComma (first :: line)) after) :
    e.Reads depth (Node.raised e.move.lines) (readDeclaration e.part first line after)
      (readDeclaration e.whole (first.moved e.move) (line.map (·.moved e.move)) after') := by
  by_cases assignment : assigns line = true ∧ ∃ name, first.kind = .ident name
  · obtain ⟨assigned, name, kind⟩ := assignment
    rw [selects_assigns kind assigned] at clear
    have clear : e.Clear false after := clear
    cases line with
    | nil => cases assigned
    | cons op value =>
      have isOp : op.kind = .assign ∨ op.kind = .conditionalAssign := by
        simpa [assigns] using assigned
      have kind' : (first.moved e.move).kind = .ident name := kind
      have isOp' : (op.moved e.move).kind = .assign ∨ (op.moved e.move).kind = .conditionalAssign :=
        isOp
      rw [readDeclaration_assigns kind isOp, List.map_cons, readDeclaration_assigns kind' isOp']
      exact (e.gives_readAssignment name op value first.span.line).reads h clear
  · have quiet : ∀ name, first.kind = .ident name → assigns line = false :=
      fun name kind => Bool.eq_false_iff.2 fun assigned => assignment ⟨assigned, name, kind⟩
    have quiet' : ∀ name, (first.moved e.move).kind = .ident name →
        assigns (line.map (·.moved e.move)) = false := by
      intro name kind
      rw [← quiet name kind]
      cases line <;> rfl
    have declares : declares first line = true := by
      unfold StylusToScss.declares
      split
      · next kind => exact absurd kind (plain _)
      · next word kind =>
        have unlisted : keywords.contains word = false :=
          Bool.eq_false_iff.2 fun mem => other word (List.contains_iff_mem.1 mem) kind
        rw [quiet word kind, unlisted]
        rfl
      · rfl
    have definition := @definitionName?_moved e.move (first :: line)
    have call := @startsCall_moved e.move (first :: line)
    have comma := @endsWithComma_moved e.move (first :: line)
    unfold lineTexts selects at texts
    unfold selects at clear
    rw [declares] at texts clear
    rw [List.map_cons] at definition call comma
    rw [readDeclaration_other quiet, readDeclaration_other quiet', h.blockFollows, definition, call,
      comma]
    cases follows : blockFollows after with
    | true =>
      rw [follows] at texts clear
      cases named : definitionName? (first :: line) with
      | some name =>
        rw [named] at clear
        have clear : e.Clear false after := clear
        rw [if_pos rfl, if_pos rfl, ← List.map_cons, List.length_map]
        refine (e.carries_tokensBetween (first :: line) 2 _).bind ?_
        rintro inside _ ⟨-, rfl⟩
        refine (e.gives_readParameters inside first.span.line).bind ?_
        rintro params _ rfl
        refine (reads_readBlock first.span.line after h clear).bind ?_
        rintro _ _ ⟨block, -, -, meets, clear⟩
        exact .ok (.of_eq Node.renumbered_definition.symm meets clear)
      | none =>
        rw [named] at texts clear
        exact reads_readGroup first.span.line (first :: line) after h (texts _ (.head _)) clear
    | false =>
      rw [follows] at texts clear
      rw [if_neg Bool.false_ne_true, if_neg Bool.false_ne_true]
      cases isCall : startsCall (first :: line) with
      | true =>
        rw [isCall] at clear
        exact (e.gives_readExpression (first :: line) first first.span.line).reads h clear
      | false =>
        rw [isCall] at texts clear
        cases ends : endsWithComma (first :: line) with
        | true =>
          rw [ends] at texts clear
          refine reads_readGroup first.span.line (first :: line) after h (texts _ (.head _)) ?_
          rw [ends]
          exact clear
        | false =>
          rw [ends] at texts clear
          exact (e.gives_readProperty (texts _ (.head _)) first.span.line).reads h clear
termination_by 16 * after.length + 4

theorem reads_readGroup {depth : Nat} (number : Nat) (line after : List Token) {after' : List Token}
    (h : e.Meets false depth after after') (text : e.SameText line)
    (clear : e.Clear (endsWithComma line) after) :
    e.Reads depth (Node.raised e.move.lines) (readGroup e.part number line after)
      (readGroup e.whole (number + e.move.lines) (line.map (·.moved e.move)) after') := by
  unfold readGroup
  refine (reads_readSelectors line after h text clear).bind ?_
  rintro _ _ ⟨selectors, le, -, meets, clear⟩
  refine (reads_readBlock number _ meets clear).bind ?_
  rintro _ _ ⟨block, -, -, meets, clear⟩
  refine .ok (.of_eq ?_ meets clear)
  show _ = (Node.group selectors block).renumbered _
  rw [Node.renumbered_group, renumberedSelectors_eq_map]
  rfl
termination_by 16 * after.length + 3

theorem reads_readSelectors {depth : Nat} (line after : List Token) {after' : List Token}
    (h : e.Meets false depth after after') (text : e.SameText line)
    (clear : e.Clear (endsWithComma line) after) :
    e.Reads depth (List.map (Selector.renumbered (· + e.move.lines)))
      (readSelectors e.part line after)
      (readSelectors e.whole (line.map (·.moved e.move)) after') := by
  unfold readSelectors
  refine (e.gives_readSelectorLine text).bind ?_
  rintro selectors _ rfl
  rw [endsWithComma_moved]
  split
  · next comma =>
    rw [comma] at clear
    refine (reads_readLineBreak h clear).bind ?_
    rintro gap gap' ⟨meets, clear⟩
    have faces := meets.faces
    have clear := clear.skipNewlines
    have := gap.rest_lt
    have := length_skipNewlines gap.rest
    by_cases empty : lineOf (skipNewlines gap.rest) = []
    · rw [if_pos empty]
      intro strict
      obtain ⟨lines, behind⟩ := faces.lineOf_eq fun _ => strict
      have empty' : lineOf (skipNewlines gap'.rest) = [] := by
        rw [lines, empty]
        rfl
      rw [if_pos empty', behind.fault strict]
    · obtain ⟨lines, behind⟩ := faces.lineOf_eq fun none => absurd none empty
      have further : lineOf (skipNewlines gap'.rest) ≠ [] := by
        rw [lines]
        exact mt List.map_eq_nil_iff.1 empty
      have := length_afterLine (skipNewlines gap.rest)
      obtain ⟨text, clear⟩ := clear.further empty
      rw [if_neg empty, if_neg further, lines]
      refine (reads_readSelectors _ _ behind text clear).bind ?_
      rintro _ _ ⟨more, -, -, meets, clear⟩
      exact .ok (.of_eq List.map_append.symm meets clear)
  · next ends =>
    rw [Bool.eq_false_iff.2 ends] at clear
    exact .ok (.of_eq rfl h clear)
termination_by 16 * after.length + 2

end

/-- The statements of the whole are those of the part, raised, and those of what stands behind it.
-/
theorem carries_readStatements (tokens : List Token) {tokens' : List Token} {others : List Node}
    (h : e.Meets false 0 tokens tokens') (clear : e.Clear false tokens)
    (behind : readStatements e.whole e.more = .ok others) :
    Carries e.strict (fun nodes nodes' => nodes' = raisedNodes e.move.lines nodes ++ others)
      (readStatements e.part tokens) (readStatements e.whole tokens') := by
  have faces := h.faces
  generalize here : skipNewlines tokens = text at faces
  generalize here' : skipNewlines tokens' = text' at faces
  have clear := clear.of_skipNewlines here
  cases faces with
  | @content _ token rest rest' content meets =>
    have less := length_of_skipNewlines here
    have content' : (token.moved e.move).kind.endsLine = false := content
    rw [readStatements_content here content, readStatements_content here' content']
    refine (reads_readStatement token rest content meets clear).bind ?_
    rintro _ _ ⟨statement, le, -, meets, clear⟩
    refine (carries_readStatements _ meets clear behind).bind ?_
    rintro nodes _ rfl
    refine .ok ?_
    show _ = renumberedNodes _ (_ ++ nodes) ++ _
    rw [renumberedNodes_append, List.append_assoc]
    cases statement <;> rfl
  | @indent _ token _ _ kind _ =>
    have kind' : (token.moved e.move).kind = .indent := kind
    rw [readStatements_indent here kind, readStatements_indent here' kind']
    exact e.fault token _
  | ends kind =>
    rw [readStatements_ends here kind,
      readStatements_skipNewlines (here'.trans e.skipNewlines_more.symm), behind]
    exact .ok rfl
termination_by tokens.length

end Embedding
end StylusToScss
