import StylusToScss.Proofs.Conversion
import StylusToScss.Proofs.Statement.Blocks
import StylusToScss.Proofs.Statement.Parts
import StylusToScss.Proofs.Token.Bounds
import StylusToScss.Proofs.Value.Faults

/-!
# Where reading a source fails

No reader of statements goes past the token that ends the input, so there always is a token to
report a failure at, and nothing that stood behind the last token would be read
(`readStatements_beyond`). Together with the lines on which the tokens stand, this bounds the line
of every failure (`Stylesheet.ofSource_error_place`). The proofs follow the readers, by the same
recursion.
-/

namespace StylusToScss

variable {source : String} {whole tokens rest name value line after : List Token}
  {first token anchor : Token} {number : Nat} {α : Type}

/-! ## Faults on tokens -/

theorem Located.At.mono {fault : Located ParseFault} (h : fault.At tokens) (sub : tokens ⊆ whole) :
    fault.At whole := by
  obtain ⟨token, mem, same⟩ := h
  exact ⟨token, sub mem, same⟩

/-- If the source is to blame for the failure, it is reported at one of the tokens or, for a
parameter that is not there, at the start of the line of one. -/
def Located.Grounded (whole : List Token) (fault : Located ParseFault) : Prop :=
  fault.Declared → ∃ token ∈ whole,
    fault = token.fault fault.cause ∨ fault = ⟨.emptyParameter, token.span.line, 1⟩

theorem Located.At.grounded {fault : Located ParseFault} (h : fault.At whole) :
    fault.Grounded whole := by
  obtain ⟨token, mem, same⟩ := h
  exact fun _ => ⟨token, mem, .inl same⟩

theorem Token.fault_grounded (mem : token ∈ whole) (cause : ParseFault) :
    (token.fault cause).Grounded whole :=
  (token.fault_at mem cause).grounded

theorem grounded_outOfRange (good : α → Prop) :
    Yields good (·.Grounded whole) (outOfRange : Read α) :=
  fun declared => absurd rfl declared

/-! ## Readers of a line -/

/-- A step fails on one of the tokens, if the source is to blame. -/
abbrev Grounds (whole : List Token) (x : Read α) : Prop :=
  Yields (fun _ => True) (·.Grounded whole) x

theorem grounds_mapM {β : Type} {items : List β} {f : β → Read α}
    (h : ∀ item ∈ items, Grounds whole (f item)) : Grounds whole (items.mapM f) :=
  (Yields.mapM h).mono fun _ _ => trivial

theorem yields_tokenAt (tokens : List Token) (index : Nat) :
    Yields (fun token => tokens[index]? = some token) (·.Grounded whole)
      (tokenAt tokens index) := by
  unfold tokenAt
  split
  · next here => exact here
  · exact grounded_outOfRange _

theorem yields_tokensBetween (line : List Token) (start stop : Nat) :
    Yields (fun part => part = (line.take stop).drop start) (·.Grounded whole)
      (tokensBetween line start stop) := by
  unfold tokensBetween
  split
  · rfl
  · exact grounded_outOfRange _

theorem between_subset (sub : line ⊆ whole) (start stop : Nat) :
    (line.take stop).drop start ⊆ whole :=
  List.Subset.trans ((List.drop_sublist _ _).trans (List.take_sublist _ _)).subset sub

theorem grounds_rawText (tokens : List Token) : Grounds whole (rawText source tokens) := by
  unfold rawText
  split
  · split
    · trivial
    · exact grounded_outOfRange _
  · trivial

/-- Where there is no value, the failure is at the anchor; else it is at a token of the value. -/
theorem fails_valueOf (tokens : List Token) (anchor : Token) (number : Nat) :
    Yields (fun _ => True) (·.At (anchor :: tokens)) (valueOf tokens anchor number) := by
  unfold valueOf
  split
  · exact anchor.fault_at (.head _) _
  · next some =>
    have some : tokens ≠ [] := by simpa using some
    exact (Expression.fails_ofTokens some number).imp_fault fun fault placed =>
      placed.mono (List.subset_cons_self anchor tokens)

theorem grounds_valueOf (mem : anchor ∈ whole) (sub : tokens ⊆ whole) :
    Grounds whole (valueOf tokens anchor number) :=
  (fails_valueOf tokens anchor number).imp_fault fun _ placed =>
    (placed.mono (List.cons_subset.2 ⟨mem, sub⟩)).grounded

theorem grounds_readImport (mem : first ∈ whole) :
    Grounds whole (readImport source first rest number) := by
  unfold readImport
  split
  · exact first.fault_grounded mem _
  · split
    · trivial
    · exact (grounds_rawText rest).bind fun _ _ => trivial

theorem grounds_readCondition (mem : first ∈ whole) (sub : rest ⊆ whole) :
    Grounds whole (readCondition first rest) := by
  unfold readCondition
  refine (grounds_valueOf mem sub).bind fun condition _ => ?_
  split
  · trivial
  · trivial

theorem yields_readLoopKey_rest (sub : tokens ⊆ whole) :
    Yields (fun key => key.2 ⊆ whole) (·.Grounded whole) (readLoopKey tokens) := by
  unfold readLoopKey
  split
  · split
    · exact (List.cons_subset.1 (List.cons_subset.1 sub).2).2
    · exact Token.fault_grounded (List.cons_subset.1 sub).1 _
  · exact sub

theorem grounds_readLoopHead (mem : first ∈ whole) (sub : rest ⊆ whole) :
    Grounds whole (readLoopHead first rest number) := by
  unfold readLoopHead
  split
  · next rest =>
    refine (yields_readLoopKey_rest (List.cons_subset.1 sub).2).bind fun ⟨key, rest⟩ sub => ?_
    simp only at sub ⊢
    split
    · obtain ⟨anchor, sub⟩ := List.cons_subset.1 sub
      exact (grounds_valueOf anchor sub).bind fun _ _ => trivial
    · exact first.fault_grounded mem _
  · exact first.fault_grounded mem _

theorem grounds_readAssignment (word : String) (mem : anchor ∈ whole) (sub : rest ⊆ whole) :
    Grounds whole (readAssignment word anchor rest number) := by
  unfold readAssignment
  exact (grounds_valueOf mem sub).bind fun _ _ => trivial

/-- Between commas stand no other tokens than those that are divided. -/
theorem flatten_commaPieces_sublist (depth : Nat) (tokens : List Token) :
    (commaPieces depth tokens).flatten.Sublist tokens := by
  induction tokens generalizing depth with
  | nil => exact List.Sublist.refl _
  | cons token rest ih =>
    have inside (depth : Nat) :
        (consPiece token (commaPieces depth rest)).flatten.Sublist (token :: rest) := by
      rw [flatten_consPiece]
      exact (ih depth).cons_cons token
    unfold commaPieces
    split
    · split
      · exact (ih 0).cons token
      · exact inside depth
    · exact inside (depth + 1)
    · exact inside (depth - 1)
    · exact inside depth

theorem grounds_readParameter (mem : first ∈ whole) (sub : tokens ⊆ whole) :
    Grounds whole (readParameter first.span.line tokens) := by
  unfold readParameter
  split
  · exact fun _ => ⟨first, mem, .inr rfl⟩
  · trivial
  · trivial
  · obtain ⟨anchor, sub⟩ := List.cons_subset.1 (List.cons_subset.1 sub).2
    exact (grounds_valueOf anchor sub).bind fun _ _ => trivial
  · exact Token.fault_grounded (List.cons_subset.1 sub).1 _

theorem grounds_readParameters (mem : first ∈ whole) (sub : tokens ⊆ whole) :
    Grounds whole (readParameters tokens first.span.line) := by
  unfold readParameters
  split
  · trivial
  · refine (grounds_mapM fun piece hp => ?_).bind fun _ _ => trivial
    have part := (List.sublist_flatten_of_mem hp).trans (flatten_commaPieces_sublist 0 tokens)
    exact grounds_readParameter mem (List.Subset.trans part.subset sub)

theorem grounds_splitSegments (mem : first ∈ whole) (text : List Char) :
    Grounds whole (splitSegments text first.span.line first.span.column) := by
  unfold splitSegments
  split
  · trivial
  · exact first.fault_grounded mem _

theorem grounds_readSelectorLine (sub : tokens ⊆ whole) :
    Grounds whole (readSelectorLine source tokens) := by
  unfold readSelectorLine
  refine (yields_tokenAt tokens 0).bind fun first here => ?_
  refine (grounds_rawText tokens).bind fun text _ => ?_
  have mem := sub (List.mem_of_getElem? here)
  refine grounds_mapM fun text _ => ?_
  exact (grounds_splitSegments mem text).bind fun _ _ => trivial

theorem grounds_propertyOf (start : ∀ first ∈ name.head?, first ∈ whole ∧ first.span.line = number)
    (mem : anchor ∈ whole) (sub : value ⊆ whole) :
    Grounds whole (propertyOf source name value anchor number) := by
  unfold propertyOf
  refine (grounds_rawText name).bind fun text _ => ?_
  refine (yields_tokenAt name 0).bind fun first here => ?_
  obtain ⟨mem', rfl⟩ := start first (by rw [List.head?_eq_getElem?]; exact here)
  refine (grounds_splitSegments mem' text.toList).bind fun segments _ => ?_
  exact (grounds_valueOf mem sub).bind fun _ _ => trivial

theorem grounds_readExpression (mem : first ∈ whole) (sub : tokens ⊆ whole) :
    Grounds whole (readExpression tokens first number) := by
  unfold readExpression
  exact (grounds_valueOf mem sub).bind fun _ _ => trivial

theorem grounds_continuesExpression (tokens : List Token) (index : Nat) :
    Grounds whole (continuesExpression tokens index) := by
  unfold continuesExpression
  exact (yields_tokenAt tokens index).bind fun _ _ => trivial

section
variable (sub : first :: line ⊆ whole)
include sub

/-- The name of a property starts with the first token of its line. -/
theorem start_name (stop : Nat) : ∀ token ∈ (((first :: line).take stop).drop 0).head?,
    token ∈ whole ∧ token.span.line = first.span.line := by
  intro token ht
  cases stop with
  | zero => cases ht
  | succ stop =>
    cases ht
    exact ⟨sub (.head _), rfl⟩

theorem grounds_readColonProperty (colon : Nat) :
    Grounds whole (readColonProperty source (first :: line) colon first.span.line) := by
  unfold readColonProperty
  refine (yields_tokenAt _ colon).bind fun anchor here => ?_
  refine (yields_tokensBetween _ 0 colon).bind ?_
  rintro name rfl
  refine (yields_tokensBetween _ (colon + 1) _).bind ?_
  rintro value rfl
  have mem := sub (List.mem_of_getElem? here)
  split
  · exact (grounds_rawText _).bind fun _ _ => anchor.fault_grounded mem _
  · exact grounds_propertyOf (start_name sub colon) mem (between_subset sub _ _)

theorem grounds_readBlankProperty (run : Nat) :
    Grounds whole (readBlankProperty source (first :: line) run first.span.line) := by
  unfold readBlankProperty
  refine (yields_tokensBetween _ 0 run).bind ?_
  rintro name rfl
  refine (yields_tokensBetween _ run _).bind ?_
  rintro value rfl
  refine (yields_tokenAt _ (run - 1)).bind fun anchor here => ?_
  have mem := sub (List.mem_of_getElem? here)
  exact grounds_propertyOf (start_name sub run) mem (between_subset sub _ _)

theorem grounds_readProperty :
    Grounds whole (readProperty source (first :: line) first.span.line) := by
  have mem := sub (.head _)
  unfold readProperty
  rw [tokenAt_zero, ok_bind]
  simp only
  split
  · split
    · exact first.fault_grounded mem _
    · exact grounds_readColonProperty sub _
  · split
    · exact grounds_readExpression mem sub
    · refine (grounds_continuesExpression _ _).bind fun continues _ => ?_
      split
      · exact grounds_readExpression mem sub
      · exact grounds_readBlankProperty sub _

end

/-! ## What is left of the tokens -/

/-- What is left of the tokens of a source: the last ones of them, with the one that ends it. -/
structure Leftover (whole tokens : List Token) : Prop where
  suffix : tokens <:+ whole
  ended : ∃ token ∈ tokens, token.kind = .endOfInput

namespace Leftover

theorem mem (h : Leftover whole (token :: rest)) : token ∈ whole := h.suffix.subset (.head _)

theorem tail (h : Leftover whole (token :: rest)) (more : token.kind ≠ .endOfInput) :
    Leftover whole rest := by
  refine ⟨(List.suffix_cons token rest).trans h.suffix, ?_⟩
  obtain ⟨last, _ | ⟨_, mem⟩, kind⟩ := h.ended
  · exact absurd kind more
  · exact ⟨last, mem, kind⟩

/-- There is a token left. -/
theorem firstToken_mem (h : Leftover whole tokens) : firstToken tokens ∈ whole := by
  cases tokens with
  | nil =>
    obtain ⟨_, mem, _⟩ := h.ended
    cases mem
  | cons token rest => exact h.mem

theorem dropWhile {p : Token → Bool}
    (more : ∀ token, p token = true → token.kind ≠ .endOfInput) (h : Leftover whole tokens) :
    Leftover whole (tokens.dropWhile p) := by
  induction tokens with
  | nil => exact h
  | cons token rest ih =>
    rw [List.dropWhile_cons]
    split
    · next passed => exact ih (h.tail (more token passed))
    · exact h

theorem skipNewlines (h : Leftover whole tokens) : Leftover whole (skipNewlines tokens) :=
  h.dropWhile fun token newline => by simp [beq_iff_eq.1 newline]

theorem of_skipNewlines {next : List Token} (h : Leftover whole tokens)
    (skipped : StylusToScss.skipNewlines tokens = next) : Leftover whole next :=
  skipped ▸ h.skipNewlines

theorem afterLine (h : Leftover whole tokens) : Leftover whole (afterLine tokens) := by
  refine h.dropWhile fun token content kind => ?_
  rw [kind] at content
  cases content

theorem afterLevels (h : Leftover whole tokens) (depth : Nat) :
    Leftover whole (afterLevels depth tokens) := by
  induction tokens generalizing depth with
  | nil => exact h
  | cons token rest ih =>
    unfold StylusToScss.afterLevels
    split
    · exact h
    · next kind => exact ih (h.tail (by simp [kind])) _
    · next kind =>
      have behind := h.tail (by simp [kind])
      split
      · exact behind
      · exact ih behind _
    · next more _ _ => exact ih (h.tail more) _

theorem afterBlock (h : Leftover whole tokens) : Leftover whole (afterBlock tokens) := by
  cases follows : blockFollows tokens with
  | false =>
    rw [StylusToScss.afterBlock, follows]
    exact h
  | true =>
    obtain ⟨indent, rest, skipped, kind, behind⟩ := blockFollows_cases follows
    rw [behind]
    exact ((h.of_skipNewlines skipped).tail (by simp [kind])).afterLevels 1

theorem lineOf_subset (h : Leftover whole tokens) : lineOf tokens ⊆ whole := by
  have part := (withoutSemicolons_sublist _).trans
    (List.takeWhile_sublist (l := tokens) fun token => !token.kind.endsLine)
  exact List.Subset.trans part.subset h.suffix.subset

end Leftover

/-! ## Readers of statements -/

/-- A reading leaves some of the tokens, the last one among them, or fails on one of them. -/
abbrev Leaves (whole : List Token) {n : Nat} {tokens : List Token} (x : ReadResult n α tokens) :
    Prop :=
  Yields (Leftover whole ·.rest) (·.Grounded whole) x

theorem leaves_readLineBreak (h : Leftover whole tokens) : Leaves whole (readLineBreak tokens) := by
  unfold readLineBreak
  split
  · exact h.tail (by rintro ⟨⟩)
  · exact Token.fault_grounded h.firstToken_mem _

mutual

theorem leaves_readBody (tokens : List Token) (h : Leftover whole tokens) :
    Leaves whole (readBody source tokens) := by
  unfold readBody
  split
  · next none => exact h.of_skipNewlines none
  · next token rest some =>
    have here := h.of_skipNewlines some
    have less := length_of_skipNewlines some
    split
    · exact here
    · exact token.fault_grounded here.mem _
    · next dedent => exact here.tail (by simp [dedent])
    · next eof indent dedent =>
      have content := content_of_skipNewlines some eof indent dedent
      refine (leaves_readStatement token rest content here).bind fun statement behind => ?_
      have := statement.rest_le
      exact (leaves_readBody statement.rest behind).bind fun _ behind => behind
termination_by 16 * tokens.length + 9

theorem leaves_readBlock (number : Nat) (tokens : List Token) (h : Leftover whole tokens) :
    Leaves whole (readBlock source number tokens) := by
  unfold readBlock
  split
  · next none =>
    obtain ⟨_, mem, _⟩ := (h.of_skipNewlines none).ended
    cases mem
  · next token rest some =>
    have here := h.of_skipNewlines some
    have less := length_of_skipNewlines some
    split
    · next indent =>
      have inside := here.tail (by simp [beq_iff_eq.1 indent])
      exact (leaves_readBody rest inside).bind fun _ behind => behind
    · exact token.fault_grounded here.mem _
termination_by 16 * tokens.length + 1

theorem leaves_readStatement (first : Token) (rest : List Token)
    (content : first.kind.endsLine = false) (h : Leftover whole (first :: rest)) :
    Leaves whole (readStatement source first rest) := by
  have sub := h.lineOf_subset
  rw [lineOf_cons content] at sub
  have behind := (h.tail (by rintro kind; rw [kind] at content; cases content)).afterLine
  unfold readStatement
  split
  · exact behind
  · next start line cut =>
    rw [cut] at sub
    have := length_afterLine rest
    exact (leaves_readNode start line (afterLine rest) sub behind).bind fun _ behind => behind
termination_by 16 * rest.length + (16 + 8)

theorem leaves_readNode (first : Token) (line after : List Token) (sub : first :: line ⊆ whole)
    (h : Leftover whole after) : Leaves whole (readNode source first line after) := by
  obtain ⟨mem, rest⟩ := List.cons_subset.1 sub
  unfold readNode
  simp only
  split
  · split
    · exact (grounds_readImport mem).bind fun _ _ => h
    · exact h.afterBlock
  · exact leaves_readConditional first line after sub h
  · exact leaves_readConditional first line after sub h
  · exact first.fault_grounded mem _
  · refine (grounds_readLoopHead mem rest).bind fun head _ => ?_
    exact (leaves_readBlock _ after h).bind fun _ behind => behind
  · exact (grounds_valueOf mem rest).bind fun _ _ => h
  · exact leaves_readDeclaration first line after sub h
termination_by 16 * after.length + 7

theorem leaves_readConditional (keyword : Token) (line after : List Token)
    (sub : keyword :: line ⊆ whole) (h : Leftover whole after) :
    Leaves whole (readConditional source keyword line after) := by
  obtain ⟨mem, rest⟩ := List.cons_subset.1 sub
  unfold readConditional
  refine (grounds_readCondition mem rest).bind fun condition _ => ?_
  refine (leaves_readBlock _ after h).bind fun block behind => ?_
  have := block.rest_lt
  exact (leaves_readAlternatives block.rest behind).bind fun _ behind => behind
termination_by 16 * after.length + 6

theorem leaves_readAlternatives (tokens : List Token) (h : Leftover whole tokens) :
    Leaves whole (readAlternatives source tokens) := by
  unfold readAlternatives
  split
  · exact h
  · next word rest some =>
    have here := h.of_skipNewlines some
    have := length_afterLine rest
    have := length_of_skipNewlines some
    split
    · next isElse =>
      have kind := Kind.isWord_iff.1 isElse
      have clause := here.lineOf_subset
      have behind := (here.tail (by simp [kind])).afterLine
      rw [lineOf_cons (by rw [kind]; rfl), withoutSemicolons_cons _ (by simp [kind])] at clause
      simp only
      rw [withoutSemicolons_cons _ (by simp [kind]), tokenAt_zero, ok_bind, List.drop_one,
        List.tail_cons]
      split
      · exact (leaves_readBlock _ (afterLine rest) behind).bind fun _ behind => behind
      · next keyword line found =>
        rw [found] at clause
        obtain ⟨-, sub⟩ := List.cons_subset.1 clause
        obtain ⟨mem, rest'⟩ := List.cons_subset.1 sub
        split
        · refine (grounds_readCondition mem rest').bind fun condition _ => ?_
          refine (leaves_readBlock _ (afterLine rest) behind).bind fun block behind => ?_
          have := block.rest_lt
          exact (leaves_readAlternatives block.rest behind).bind fun _ behind => behind
        · exact keyword.fault_grounded mem _
    · exact h
termination_by 16 * tokens.length + 5

theorem leaves_readDeclaration (first : Token) (line after : List Token)
    (sub : first :: line ⊆ whole) (h : Leftover whole after) :
    Leaves whole (readDeclaration source first line after) := by
  obtain ⟨mem, rest⟩ := List.cons_subset.1 sub
  unfold readDeclaration
  simp only
  split
  · obtain ⟨op, value⟩ := List.cons_subset.1 rest
    exact (grounds_readAssignment _ op value).bind fun _ _ => h
  · obtain ⟨op, value⟩ := List.cons_subset.1 rest
    exact (grounds_readAssignment _ op value).bind fun _ _ => h
  · split
    · split
      · refine (yields_tokensBetween _ 2 _).bind ?_
        rintro inside rfl
        refine (grounds_readParameters mem (between_subset sub 2 _)).bind fun params _ => ?_
        exact (leaves_readBlock _ after h).bind fun _ behind => behind
      · exact leaves_readGroup _ _ after sub h
    · split
      · exact (grounds_readExpression mem sub).bind fun _ _ => h
      · split
        · exact leaves_readGroup _ _ after sub h
        · exact (grounds_readProperty sub).bind fun _ _ => h
termination_by 16 * after.length + 4

theorem leaves_readGroup (number : Nat) (line after : List Token) (sub : line ⊆ whole)
    (h : Leftover whole after) : Leaves whole (readGroup source number line after) := by
  unfold readGroup
  refine (leaves_readSelectors line after sub h).bind fun selectors behind => ?_
  have := selectors.rest_le
  exact (leaves_readBlock number selectors.rest behind).bind fun _ behind => behind
termination_by 16 * after.length + 3

theorem leaves_readSelectors (line after : List Token) (sub : line ⊆ whole)
    (h : Leftover whole after) : Leaves whole (readSelectors source line after) := by
  unfold readSelectors
  refine (grounds_readSelectorLine sub).bind fun selectors _ => ?_
  split
  · refine (leaves_readLineBreak h).bind fun gap behind => ?_
    have next := behind.skipNewlines
    simp only
    split
    · exact Token.fault_grounded next.afterLine.firstToken_mem _
    · have := length_afterLine (skipNewlines gap.rest)
      have := length_skipNewlines gap.rest
      have := gap.rest_lt
      exact (leaves_readSelectors _ _ next.lineOf_subset next.afterLine).bind fun _ behind => behind
  · exact h
termination_by 16 * after.length + 2

end

theorem grounds_readStatements (tokens : List Token) (h : Leftover whole tokens) :
    Grounds whole (readStatements source tokens) := by
  unfold readStatements
  split
  · trivial
  · next token rest some =>
    have here := h.of_skipNewlines some
    have less := length_of_skipNewlines some
    split
    · trivial
    · exact token.fault_grounded here.mem _
    · next dedent => exact grounds_readStatements rest (here.tail (by simp [dedent]))
    · next eof indent dedent =>
      have content := content_of_skipNewlines some eof indent dedent
      refine (leaves_readStatement token rest content here).bind fun statement behind => ?_
      have := statement.rest_le
      exact (grounds_readStatements statement.rest behind).bind fun _ _ => trivial
termination_by tokens.length

/-! ## Behind the end -/

theorem Embedding.sameText_of_eq {e : Embedding} (same : e.whole = e.part) (move : e.move = .none)
    (piece : List Token) : e.SameText piece := by
  have unmoved : piece.map (·.moved .none) = piece := List.map_id piece
  show Carries e.strict _ (rawText e.part piece) (rawText e.whole (piece.map (·.moved e.move)))
  rw [same, move, unmoved]
  cases rawText e.part piece with
  | ok text => exact .ok rfl
  | error fault => exact .error fault

/-- Behind the token that ends the input, nothing is read: whatever stands there, the statements are
the same, and so is the failure if there is one. -/
theorem readStatements_beyond (cut : tokenize source = .ok tokens) (beyond : List Token) :
    readStatements source (tokens ++ beyond) = readStatements source tokens := by
  obtain ⟨body, last, rfl, ended⟩ := exists_last_of_tokenize cut
  let e : Embedding :=
    { part := source, whole := source, move := .none, more := last :: beyond
      starts := by
        rintro token ⟨⟩
        simp [ended, Kind.isWord]
      strict := True, unmoved := fun _ => rfl }
  have meets := e.meets_of_tokenize cut rfl
  have unmoved : body.map (·.moved .none) = body := List.map_id body
  have behind : readStatements source e.more = .ok [] :=
    readStatements_ends (skipNewlines_of_ne (by simp [ended])) ended
  have clear : e.Clear false (body ++ [last]) :=
    fun piece _ => Embedding.sameText_of_eq rfl rfl piece
  have carries := (e.carries_readStatements _ meets clear behind).mono
    fun nodes nodes' same => (same.trans (List.append_nil _)).trans (raisedNodes_zero nodes)
  rw [← carries.eq, List.append_assoc]
  show _ = readStatements source (body.map (·.moved .none) ++ e.more)
  rw [unmoved]
  rfl

/-! ## Sources -/

/-- Reading fails on one of the tokens of a source. -/
theorem Stylesheet.token_of_ofSource_error {fault : Located ParseFault}
    (cut : tokenize source = .ok tokens) (h : ofSource source = .error fault) :
    ∃ token ∈ tokens,
      fault = token.fault fault.cause ∨ fault = ⟨.emptyParameter, token.span.line, 1⟩ := by
  have declared := (statements_of_ofSource source).of_eq_error h
  have left : Leftover tokens tokens := by
    obtain ⟨body, last, rfl, ended⟩ := exists_last_of_tokenize cut
    exact ⟨List.suffix_rfl, last, List.mem_append_right _ (.head _), ended⟩
  unfold ofSource at h
  rw [cut] at h
  have reads : Grounds tokens (ofTokens source tokens) :=
    (grounds_readStatements tokens left).bind fun _ _ => trivial
  exact reads.of_eq_error h declared

/-- Reading a source fails on one of its lines. -/
theorem Stylesheet.onLine_of_ofSource_error {fault : Located ParseFault}
    (h : ofSource source = .error fault) : OnLine source.toList fault.line fault.column := by
  cases cut : tokenize source with
  | error e =>
    unfold ofSource at h
    rw [cut] at h
    cases h
    exact onLine_of_tokenize_error cut
  | ok tokens =>
    obtain ⟨token, mem, same | same⟩ := token_of_ofSource_error cut h
    · rw [same]
      exact onLine_of_tokenize cut token mem
    · obtain ⟨line, most, -⟩ := onLine_of_tokenize cut token mem
      rw [same]
      exact ⟨line, most, Nat.le_refl 1⟩

/-- Failures have real places. The line of a failure is one of those that the line feeds and
carriage returns of the source can start, and its column is not zero. Where the source has tokens,
the failure is reported at one of them, or at the start of the line of one, and reading never asks
for a token behind the last one: whatever stood there, the failure would be the same. Where a value
is asked for, the failure to read it is reported at a token too. -/
theorem Stylesheet.ofSource_error_place {fault : Located ParseFault}
    (h : ofSource source = .error fault) :
    (1 ≤ fault.line ∧ fault.line ≤ 1 + breakCharacters source.toList ∧ 1 ≤ fault.column) ∧
    (∀ tokens, tokenize source = .ok tokens →
      (∃ token ∈ tokens,
        fault = token.fault fault.cause ∨ fault = ⟨.emptyParameter, token.span.line, 1⟩) ∧
      ∀ beyond, ofTokens source (tokens ++ beyond) = .error fault) ∧
    ∀ value anchor number e, valueOf value anchor number = .error e →
      ∃ token ∈ anchor :: value, e = token.fault e.cause := by
  obtain ⟨line, most, column⟩ := onLine_of_ofSource_error h
  refine ⟨⟨line, most, column⟩, fun tokens cut => ⟨token_of_ofSource_error cut h, ?_⟩, ?_⟩
  · intro beyond
    unfold ofSource at h
    rw [cut] at h
    unfold ofTokens at h ⊢
    rw [readStatements_beyond cut]
    exact h
  · intro value anchor number e read
    exact (fails_valueOf value anchor number).of_eq_error read

/-- A block is missing at the end of the input, on the last line that the source can have. -/
theorem Stylesheet.error_place_end : ofSource "if a\n" = .error ⟨.blockExpected, 2, 1⟩ ∧
    (1 ≤ 2 ∧ 2 ≤ 1 + breakCharacters "if a\n".toList ∧ 1 ≤ 1) ∧
    ∀ tokens, tokenize "if a\n" = .ok tokens → ∀ beyond,
      ofTokens "if a\n" (tokens ++ beyond) = .error ⟨.blockExpected, 2, 1⟩ := by
  have fails : (ofSource "if a\n").map (fun _ => ()) = .error ⟨.blockExpected, 2, 1⟩ := by
    decide +kernel
  have fails := map_eq_error_iff.1 fails
  obtain ⟨bounds, places, -⟩ := ofSource_error_place fails
  exact ⟨fails, bounds, fun tokens cut => (places tokens cut).2⟩

end StylusToScss
