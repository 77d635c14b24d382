import StylusToScss.Proofs.Statement.Reading
import StylusToScss.Proofs.Token.Levels

/-!
# Blocks are taken whole

A block is read statement by statement, or skipped with a count of its levels. Both ways end behind
the `Dedent` that closes the `Indent` of the block (`tokenize_blocks`): every reader of a statement
leaves the level on which it starts as it finds it, whatever blocks it reads on its way
(`SameLevel`), so the first `Dedent` that a block meets between its statements is its own. For the
same reason no statement leads to a `Dedent` where no level is open, and none to the end of the
input where one is (`Closing`).
-/

namespace StylusToScss

variable {source : String} {tokens rest after before here start : List Token}
  {token first : Token} {depth n : Nat}

/-! ## Levels that tokens close -/

/-- Whether a token of this kind says something about levels. -/
def Kind.marksLevel : Kind → Bool
  | .indent | .dedent | .endOfInput => true
  | _ => false

theorem Kind.level_cases (kind : Kind) :
    kind = .endOfInput ∨ kind = .indent ∨ kind = .dedent ∨ kind.marksLevel = false := by
  cases kind <;> simp [marksLevel]

theorem Kind.marksLevel_of_content {kind : Kind} (content : kind.endsLine = false) :
    kind.marksLevel = false := by
  cases kind with
  | newline | indent | dedent | endOfInput => cases content
  | _ => rfl

/-- The tokens close as many levels as are open in front of them, and those that they open, and end
the input then. -/
inductive Closing : Nat → List Token → Prop
  | last {token : Token} (kind : token.kind = .endOfInput) : Closing 0 [token]
  | indent {depth : Nat} {token : Token} {rest : List Token} (kind : token.kind = .indent)
      (more : Closing (depth + 1) rest) : Closing depth (token :: rest)
  | dedent {depth : Nat} {token : Token} {rest : List Token} (kind : token.kind = .dedent)
      (more : Closing depth rest) : Closing (depth + 1) (token :: rest)
  | other {depth : Nat} {token : Token} {rest : List Token} (plain : token.kind.marksLevel = false)
      (more : Closing depth rest) : Closing depth (token :: rest)

theorem openIndents_plain (plain : token.kind.marksLevel = false) :
    openIndents (before ++ [token]) = openIndents before := by
  refine openIndents_other ?_ ?_ <;> intro kind <;> rw [kind] at plain <;> cases plain

/-- The tokens of a source close the levels that are open, wherever they are cut in two. -/
theorem closing_of_tokenize (cut : tokenize source = .ok tokens) (split : tokens = before ++ here)
    (some : here ≠ []) : Closing (openIndents before).length here := by
  induction here generalizing before with
  | nil => exact absurd rfl some
  | cons token rest ih =>
    have standing := Scan.standing_of_tokenize cut split
    have next : tokens = (before ++ [token]) ++ rest := by simpa using split
    cases rest with
    | nil =>
      obtain ⟨body, last, split', ended, none⟩ := Scan.last_of_tokenize cut
      obtain ⟨rfl, rfl⟩ := List.append_singleton_inj.1 (split.symm.trans split')
      rw [split, openIndents_other (by simp [ended]) (by simp [ended])] at none
      rw [none]
      exact .last ended
    | cons _ _ =>
      have ih := ih next (List.cons_ne_nil _ _)
      obtain kind | kind | kind | plain := token.kind.level_cases
      · cases standing.endOfInput kind
      · rw [openIndents_indent kind] at ih
        exact .indent kind ih
      · have inside := standing.dedent_inside kind
        rw [openIndents_dedent kind] at ih
        cases levels : openIndents before with
        | nil => exact absurd levels inside
        | cons level levels' =>
          rw [levels] at ih
          exact .dedent kind ih
      · rw [openIndents_plain plain] at ih
        exact .other plain ih

/-! ## Skipping levels -/

theorem afterLevels_endOfInput (kind : token.kind = .endOfInput) :
    afterLevels n (token :: rest) = token :: rest := by
  rw [afterLevels, kind]

theorem afterLevels_indent (kind : token.kind = .indent) :
    afterLevels n (token :: rest) = afterLevels (n + 1) rest := by
  rw [afterLevels, kind]

theorem afterLevels_dedent_one (kind : token.kind = .dedent) :
    afterLevels 1 (token :: rest) = rest := by
  rw [afterLevels, kind]
  rfl

theorem afterLevels_dedent (kind : token.kind = .dedent) :
    afterLevels (n + 2) (token :: rest) = afterLevels (n + 1) rest := by
  rw [afterLevels, kind]
  exact if_neg (by omega)

theorem afterLevels_plain (plain : token.kind.marksLevel = false) :
    afterLevels n (token :: rest) = afterLevels n rest := by
  rw [afterLevels]
  split
  · next kind => rw [kind] at plain; cases plain
  · next kind => rw [kind] at plain; cases plain
  · next kind => rw [kind] at plain; cases plain
  · rfl

/-- To leave some levels and then some more is to leave all of them. -/
theorem afterLevels_afterLevels (tokens : List Token) (n m : Nat) :
    afterLevels (m + 1) (afterLevels (n + 1) tokens) = afterLevels (n + m + 2) tokens := by
  induction tokens generalizing n with
  | nil => rfl
  | cons token rest ih =>
    obtain kind | kind | kind | plain := token.kind.level_cases
    · rw [afterLevels_endOfInput kind, afterLevels_endOfInput kind, afterLevels_endOfInput kind]
    · rw [afterLevels_indent kind, afterLevels_indent kind, ih (n + 1)]
      congr 1
      omega
    · cases n with
      | zero => rw [afterLevels_dedent_one kind, Nat.zero_add, afterLevels_dedent kind]
      | succ n =>
        rw [afterLevels_dedent kind, ih n, show n + 1 + m + 2 = n + m + 1 + 2 by omega,
          afterLevels_dedent kind]
    · rw [afterLevels_plain plain, afterLevels_plain plain, ih n]

theorem Closing.afterLevels (h : Closing (depth + n + 1) tokens) :
    Closing depth (afterLevels (n + 1) tokens) := by
  induction tokens generalizing n with
  | nil => cases h
  | cons token rest ih =>
    cases h with
    | indent kind more =>
      rw [afterLevels_indent kind]
      exact ih more
    | dedent kind more =>
      cases n with
      | zero =>
        rw [afterLevels_dedent_one kind]
        exact more
      | succ n =>
        rw [afterLevels_dedent kind]
        exact ih more
    | other plain more =>
      rw [afterLevels_plain plain]
      exact ih more

/-- Behind an `Indent` one more level is to be closed. -/
theorem Closing.behind_indent (h : Closing depth (token :: rest)) (kind : token.kind = .indent) :
    Closing (depth + 1) rest := by
  cases h with
  | indent _ more => exact more
  | last kind' | dedent kind' =>
    rw [kind] at kind'
    cases kind'
  | other plain =>
    rw [kind] at plain
    cases plain

/-- Where the levels are closed, the tokens up to the `Dedent` that is looked for lead back to the
levels that are open outside of the `n` innermost ones. -/
theorem Closing.exists_dedent {levels : List Nat} (h : Closing (depth + n + 1) tokens)
    (opened : (openIndents before).drop n = levels) :
    ∃ inside dedent, tokens = inside ++ dedent :: StylusToScss.afterLevels (n + 1) tokens ∧
      dedent.kind = .dedent ∧ openIndents (before ++ inside) = levels := by
  induction tokens generalizing n before with
  | nil => cases h
  | cons token rest ih =>
    -- behind one token more, of which the rest is known
    have further {m : Nat} (more : Closing (depth + m + 1) rest)
        (opened : (openIndents (before ++ [token])).drop m = levels)
        (same : StylusToScss.afterLevels (n + 1) (token :: rest) =
          StylusToScss.afterLevels (m + 1) rest) :
        ∃ inside dedent,
          token :: rest = inside ++ dedent :: StylusToScss.afterLevels (n + 1) (token :: rest) ∧
          dedent.kind = .dedent ∧ openIndents (before ++ inside) = levels := by
      obtain ⟨inside, dedent, split, kind, left⟩ := ih more opened
      refine ⟨token :: inside, dedent, ?_, kind, by simpa using left⟩
      rw [same, List.cons_append, ← split]
    cases h with
    | indent kind more =>
      refine further (m := n + 1) more ?_ (afterLevels_indent kind)
      rw [openIndents_indent kind, List.drop_succ_cons]
      exact opened
    | dedent kind more =>
      cases n with
      | zero =>
        refine ⟨[], token, ?_, kind, by simpa using opened⟩
        rw [afterLevels_dedent_one kind]
        rfl
      | succ n =>
        refine further more ?_ (afterLevels_dedent kind)
        rw [openIndents_dedent kind, List.drop_tail]
        exact opened
    | other plain more =>
      refine further more ?_ (afterLevels_plain plain)
      rw [openIndents_plain plain]
      exact opened

/-! ## Readers that stay on their level -/

/-- What is left of the tokens starts on the level on which they start. -/
structure SameLevel (tokens rest : List Token) : Prop where
  suffix : rest <:+ tokens
  levels : ∀ n, afterLevels (n + 1) rest = afterLevels (n + 1) tokens
  closing : ∀ depth, Closing depth tokens → Closing depth rest

namespace SameLevel

theorem refl (tokens : List Token) : SameLevel tokens tokens :=
  ⟨List.suffix_rfl, fun _ => rfl, fun _ => id⟩

theorem trans (h : SameLevel tokens rest) (h' : SameLevel rest after) : SameLevel tokens after where
  suffix := h'.suffix.trans h.suffix
  levels n := (h'.levels n).trans (h.levels n)
  closing depth open_ := h'.closing depth (h.closing depth open_)

theorem cons (plain : token.kind.marksLevel = false) : SameLevel (token :: rest) rest where
  suffix := List.suffix_cons _ _
  levels n := (afterLevels_plain plain).symm
  closing depth open_ := by
    cases open_ with
    | last kind | indent kind | dedent kind =>
      rw [kind] at plain
      cases plain
    | other _ more => exact more

theorem dropWhile {p : Token → Bool} (plain : ∀ token, p token → token.kind.marksLevel = false)
    (tokens : List Token) : SameLevel tokens (tokens.dropWhile p) := by
  induction tokens with
  | nil => exact refl []
  | cons token rest ih =>
    rw [List.dropWhile_cons]
    split
    · next passed => exact (cons (plain token passed)).trans ih
    · exact refl _

theorem skipNewlines (tokens : List Token) : SameLevel tokens (skipNewlines tokens) := by
  refine dropWhile (fun token newline => ?_) tokens
  rw [beq_iff_eq.1 newline]
  rfl

theorem of_skipNewlines {next : List Token} (h : StylusToScss.skipNewlines tokens = next) :
    SameLevel tokens next :=
  h ▸ skipNewlines tokens

theorem afterLine (tokens : List Token) : SameLevel tokens (afterLine tokens) :=
  dropWhile (fun _ content => Kind.marksLevel_of_content (by simpa using content)) tokens

/-- A line starts with something else than a mark of levels. -/
theorem line (content : first.kind.endsLine = false) (rest : List Token) :
    SameLevel (first :: rest) (StylusToScss.afterLine rest) :=
  (cons (Kind.marksLevel_of_content content)).trans (afterLine rest)

/-- A block that is left behind its `Dedent` opens a level and closes it. -/
theorem of_indent (kind : token.kind = .indent) :
    SameLevel (token :: rest) (afterLevels 1 rest) where
  suffix := (afterLevels_suffix 1 rest).trans (List.suffix_cons _ _)
  levels n := by rw [afterLevels_afterLevels, afterLevels_indent kind, Nat.zero_add]
  closing depth open_ := Closing.afterLevels (n := 0) (open_.behind_indent kind)

end SameLevel

/-- Where a block follows, an `Indent` stands behind line breaks. -/
theorem blockFollows_cases (follows : blockFollows tokens = true) : ∃ indent rest,
    skipNewlines tokens = indent :: rest ∧ indent.kind = .indent ∧
      afterBlock tokens = afterLevels 1 rest := by
  unfold afterBlock
  rw [if_pos follows]
  rw [blockFollows, beq_iff_eq] at follows
  generalize skipNewlines tokens = next at follows
  cases next with
  | nil => cases follows
  | cons indent rest => exact ⟨indent, rest, rfl, follows, rfl⟩

theorem SameLevel.afterBlock (tokens : List Token) : SameLevel tokens (afterBlock tokens) := by
  cases follows : blockFollows tokens with
  | false =>
    rw [StylusToScss.afterBlock, follows]
    exact refl tokens
  | true =>
    obtain ⟨indent, rest, skipped, kind, behind⟩ := blockFollows_cases follows
    rw [behind]
    exact (of_skipNewlines skipped).trans (of_indent kind)

/-- A reader stays on its level. -/
abbrev Stays {n : Nat} {α : Type} {tokens : List Token} (start : List Token)
    (x : ReadResult n α tokens) : Prop :=
  Yields (fun taken => SameLevel start taken.rest) (fun _ => True) x

/-- To leave a block behind is to stay on its level. -/
theorem Stays.of_afterBlock {α : Type} {x : ReadResult n α tokens}
    (h : Yields (·.rest = afterBlock tokens) (fun _ => True) x) : Stays tokens x :=
  h.mono fun _ left => left ▸ SameLevel.afterBlock tokens

theorem stays_readLineBreak (tokens : List Token) : Stays tokens (readLineBreak tokens) := by
  unfold readLineBreak
  split
  · exact SameLevel.cons rfl
  · trivial

mutual

theorem rest_readBody (tokens : List Token) :
    Yields (·.rest = afterLevels 1 tokens) (fun _ => True) (readBody source tokens) := by
  unfold readBody
  split
  · next none =>
    show [] = _
    rw [← (SameLevel.of_skipNewlines none).levels 0]
    rfl
  · next token rest some =>
    have less := length_of_skipNewlines some
    rw [← (SameLevel.of_skipNewlines some).levels 0]
    split
    · next kind => exact (afterLevels_endOfInput kind).symm
    · trivial
    · next kind => exact (afterLevels_dedent_one kind).symm
    · next eof indent dedent =>
      have content := content_of_skipNewlines some eof indent dedent
      refine (stays_readStatement token rest content).bind fun statement hs => ?_
      have := statement.rest_le
      exact (rest_readBody statement.rest).bind fun more hm => hm.trans (hs.levels 0)
termination_by 16 * tokens.length + 9

theorem rest_readBlock (number : Nat) (tokens : List Token) :
    Yields (·.rest = afterBlock tokens) (fun _ => True) (readBlock source number tokens) := by
  unfold readBlock
  split
  · trivial
  · next token rest some =>
    have less := length_of_skipNewlines some
    split
    · next indent =>
      have same : afterBlock tokens = afterLevels 1 rest := by
        simp [afterBlock, blockFollows, some, firstToken, indent]
      exact (rest_readBody rest).bind fun body hb => hb.trans same.symm
    · trivial
termination_by 16 * tokens.length + 1

theorem stays_readStatement (first : Token) (rest : List Token)
    (content : first.kind.endsLine = false) :
    Stays (first :: rest) (readStatement source first rest) := by
  unfold readStatement
  split
  · exact SameLevel.line content rest
  · next start line cut =>
    have := length_afterLine rest
    exact (stays_readNode start line (afterLine rest)).bind fun node hn =>
      (SameLevel.line content rest).trans hn
termination_by 16 * rest.length + (16 + 8)

theorem stays_readNode (first : Token) (line after : List Token) :
    Stays after (readNode source first line after) := by
  unfold readNode
  simp only
  split
  · split
    · exact (Yields.any _).bind fun node _ => SameLevel.refl after
    · exact SameLevel.afterBlock after
  · exact stays_readConditional first line after
  · exact stays_readConditional first line after
  · trivial
  · exact (Yields.any _).bind fun head _ =>
      (Stays.of_afterBlock (rest_readBlock _ after)).bind fun block hb => hb
  · exact (Yields.any _).bind fun value _ => SameLevel.refl after
  · exact stays_readDeclaration first line after
termination_by 16 * after.length + 7

theorem stays_readConditional (keyword : Token) (line after : List Token) :
    Stays after (readConditional source keyword line after) := by
  unfold readConditional
  refine (Yields.any _).bind fun condition _ => ?_
  refine (Stays.of_afterBlock (rest_readBlock _ after)).bind fun block hb => ?_
  have := block.rest_lt
  exact (stays_readAlternatives block.rest).bind fun alternatives ha => hb.trans ha
termination_by 16 * after.length + 6

theorem stays_readAlternatives (tokens : List Token) :
    Stays tokens (readAlternatives source tokens) := by
  unfold readAlternatives
  split
  · exact SameLevel.refl tokens
  · next word rest some =>
    have := length_afterLine rest
    have := length_of_skipNewlines some
    split
    · next isElse =>
      have content : word.kind.endsLine = false := by rw [Kind.isWord_iff.1 isElse]; rfl
      have toLine := (SameLevel.of_skipNewlines some).trans (SameLevel.line content rest)
      simp only
      refine (Yields.any _).bind fun head _ => ?_
      split
      · exact (Stays.of_afterBlock (rest_readBlock _ _)).bind fun block hb => toLine.trans hb
      · split
        · refine (Yields.any _).bind fun condition _ => ?_
          refine (Stays.of_afterBlock (rest_readBlock _ _)).bind fun block hb => ?_
          have := block.rest_lt
          exact (stays_readAlternatives block.rest).bind fun more hm => (toLine.trans hb).trans hm
        · trivial
    · exact SameLevel.refl tokens
termination_by 16 * tokens.length + 5

theorem stays_readDeclaration (first : Token) (line after : List Token) :
    Stays after (readDeclaration source first line after) := by
  unfold readDeclaration
  simp only
  split
  · exact (Yields.any _).bind fun node _ => SameLevel.refl after
  · exact (Yields.any _).bind fun node _ => SameLevel.refl after
  · split
    · split
      · refine (Yields.any _).bind fun inside _ => (Yields.any _).bind fun params _ => ?_
        exact (Stays.of_afterBlock (rest_readBlock _ after)).bind fun block hb => hb
      · exact stays_readGroup _ _ after
    · split
      · exact (Yields.any _).bind fun node _ => SameLevel.refl after
      · split
        · exact stays_readGroup _ _ after
        · exact (Yields.any _).bind fun node _ => SameLevel.refl after
termination_by 16 * after.length + 4

theorem stays_readGroup (number : Nat) (line after : List Token) :
    Stays after (readGroup source number line after) := by
  unfold readGroup
  refine (stays_readSelectors line after).bind fun selectors hs => ?_
  have := selectors.rest_le
  exact (Stays.of_afterBlock (rest_readBlock number _)).bind fun block hb => hs.trans hb
termination_by 16 * after.length + 3

theorem stays_readSelectors (line after : List Token) :
    Stays after (readSelectors source line after) := by
  unfold readSelectors
  refine (Yields.any _).bind fun selectors _ => ?_
  split
  · refine (stays_readLineBreak after).bind fun gap hg => ?_
    simp only
    split
    · trivial
    · have := length_afterLine (skipNewlines gap.rest)
      have := length_skipNewlines gap.rest
      have := gap.rest_lt
      refine (stays_readSelectors _ (afterLine (skipNewlines gap.rest))).bind fun more hm => ?_
      exact ((hg.trans (SameLevel.skipNewlines _)).trans (SameLevel.afterLine _)).trans hm
  · exact SameLevel.refl after
termination_by 16 * after.length + 2

end

/-! ## The places between statements -/

/-- From `start` on, statements that are read one after another lead here. -/
inductive Onward (source : String) (start : List Token) : List Token → Prop
  | start : Onward source start start
  | statement {here rest : List Token} {first : Token} {read : Taken 0 (Option Node) rest}
      (reached : Onward source start here) (next : skipNewlines here = first :: rest)
      (content : first.kind.endsLine = false) (ok : readStatement source first rest = .ok read) :
      Onward source start read.rest

theorem Onward.sameLevel (h : Onward source start here) : SameLevel start here := by
  induction h with
  | start => exact SameLevel.refl start
  | statement _ next content ok ih =>
    have stays := (stays_readStatement _ _ content).of_eq_ok ok
    exact (ih.trans (SameLevel.of_skipNewlines next)).trans stays

/-- Where no level is open, no level is closed next. -/
theorem Closing.head_ne_dedent (h : Closing 0 tokens) : (firstToken tokens).kind ≠ .dedent := by
  cases h with
  | last kind | indent kind => simp [firstToken, kind]
  | @other _ token _ plain =>
    rintro (dedent : token.kind = .dedent)
    rw [dedent] at plain
    cases plain

/-- Where a level is open, the input does not end next. -/
theorem Closing.head_ne_endOfInput (h : Closing (depth + 1) tokens) :
    (firstToken tokens).kind ≠ .endOfInput := by
  cases h with
  | indent kind | dedent kind => simp [firstToken, kind]
  | @other _ token _ plain =>
    rintro (ended : token.kind = .endOfInput)
    rw [ended] at plain
    cases plain

/-- The block that starts here, behind the tokens `before`, ends in front of `rest`: with the
`Dedent` that closes the `Indent` with which it starts. -/
def BlockEnds (before here rest : List Token) : Prop :=
  ∃ breaks indent inside dedent, here = breaks ++ indent :: (inside ++ dedent :: rest) ∧
    (∀ token ∈ breaks, token.kind = .newline) ∧ indent.kind = .indent ∧ dedent.kind = .dedent ∧
    openIndents (before ++ breaks ++ indent :: inside) =
      (before ++ breaks).length :: openIndents before

/-- Line breaks open and close no level. -/
theorem openIndents_newlines {breaks : List Token} (h : ∀ token ∈ breaks, token.kind = .newline) :
    openIndents (before ++ breaks) = openIndents before := by
  induction breaks generalizing before with
  | nil => rw [List.append_nil]
  | cons token breaks ih =>
    have plain : token.kind.marksLevel = false := by rw [h token (.head _)]; rfl
    rw [List.append_cons, ih fun t ht => h t (.tail _ ht), openIndents_plain plain]

/-- A block that is skipped ends with its own `Dedent`. -/
theorem Closing.blockEnds (h : Closing (openIndents before).length here)
    (follows : blockFollows here = true) : BlockEnds before here (afterBlock here) := by
  obtain ⟨indent, rest, skipped, kind, behind⟩ := blockFollows_cases follows
  have split : here = here.takeWhile (·.kind == .newline) ++ indent :: rest := by
    rw [← skipped]
    exact List.takeWhile_append_dropWhile.symm
  have breaks : ∀ token ∈ here.takeWhile (·.kind == .newline), token.kind = .newline :=
    fun token ht => by simpa using List.mem_takeWhile_imp ht
  have inside : Closing ((openIndents before).length + 0 + 1) rest :=
    ((SameLevel.of_skipNewlines skipped).closing _ h).behind_indent kind
  generalize here.takeWhile (·.kind == .newline) = front at split breaks
  have opened : (openIndents (before ++ front ++ [indent])).drop 0 =
      (before ++ front).length :: openIndents before := by
    rw [List.drop_zero, openIndents_indent kind, openIndents_newlines breaks]
  obtain ⟨inside, dedent, cut, kind', closed⟩ := inside.exists_dedent opened
  refine ⟨front, indent, inside, dedent, ?_, breaks, kind, kind', ?_⟩
  · rw [behind, ← cut, ← split]
  · rw [List.append_cons]
    exact closed

/-- Blocks are taken whole, wherever in the tokens of a source they start: a block that is skipped
ends with the `Dedent` that closes its `Indent`, and so does one that is read, if there is no
failure. Reading one statement after another, from the start of the tokens no `Dedent` is met
between them, and from behind the `Indent` of a block not the end of the input. -/
theorem tokenize_blocks (cut : tokenize source = .ok tokens) :
    (∀ before here, tokens = before ++ here → blockFollows here = true →
      BlockEnds before here (afterBlock here) ∧
      ∀ number block, readBlock source number here = .ok block → block.rest = afterBlock here) ∧
    (∀ here, Onward source tokens here → (firstToken (skipNewlines here)).kind ≠ .dedent) ∧
    ∀ start indent inside here, start <:+ tokens → skipNewlines start = indent :: inside →
      indent.kind = .indent → Onward source inside here →
      (firstToken (skipNewlines here)).kind ≠ .endOfInput := by
  refine ⟨?_, ?_, ?_⟩
  · intro before here split follows
    refine ⟨(closing_of_tokenize cut split ?_).blockEnds follows, fun number block ok => ?_⟩
    · rintro rfl
      cases follows
    · exact (rest_readBlock number here).of_eq_ok ok
  · intro here reached
    obtain ⟨body, last, split, -⟩ := Scan.last_of_tokenize cut
    have closing : Closing (openIndents []).length tokens :=
      closing_of_tokenize cut rfl (split ▸ List.concat_ne_nil _ _)
    have level := reached.sameLevel.trans (SameLevel.skipNewlines here)
    exact (level.closing _ closing).head_ne_dedent
  · rintro start indent inside here ⟨before, split⟩ skipped kind reached
    have some : start ≠ [] := by
      rintro rfl
      cases skipped
    have closing := (SameLevel.of_skipNewlines skipped).closing _
      (closing_of_tokenize cut split.symm some)
    have level := reached.sameLevel.trans (SameLevel.skipNewlines here)
    exact (level.closing _ (closing.behind_indent kind)).head_ne_endOfInput

/-- A block that holds a conditional with an alternative, in which a rule without counterpart has a
block of its own. -/
theorem blocks_nested : ∃ tokens block,
    tokenize "a\n  if b\n    c 1\n  else\n    @d\n      e\nf 2\n" = .ok tokens ∧
    blockFollows (tokens.drop 1) = true ∧
    BlockEnds (tokens.take 1) (tokens.drop 1) (afterBlock (tokens.drop 1)) ∧
    readBlock "a\n  if b\n    c 1\n  else\n    @d\n      e\nf 2\n" 1 (tokens.drop 1) = .ok block ∧
    block.rest = afterBlock (tokens.drop 1) ∧
    block.rest.map (·.kind) = [.ident "f", .number (.ofInt 2) "", .newline, .endOfInput] := by
  have shape : (tokenize "a\n  if b\n    c 1\n  else\n    @d\n      e\nf 2\n").toOption.map
      (fun tokens => (blockFollows (tokens.drop 1),
        (readBlock "a\n  if b\n    c 1\n  else\n    @d\n      e\nf 2\n" 1
          (tokens.drop 1)).toOption.map fun block => block.rest.map (·.kind))) =
      some (true, some [.ident "f", .number (.ofInt 2) "", .newline, .endOfInput]) := by
    decide +kernel
  cases cut : tokenize _ with
  | error fault =>
    rw [cut] at shape
    cases shape
  | ok tokens =>
    rw [cut] at shape
    obtain ⟨follows, rest⟩ := Prod.mk.inj (Option.some.inj shape)
    obtain ⟨ends, whole⟩ :=
      (tokenize_blocks cut).1 _ _ (List.take_append_drop 1 tokens).symm follows
    cases read : readBlock _ 1 (tokens.drop 1) with
    | error fault =>
      rw [read] at rest
      cases rest
    | ok block =>
      rw [read] at rest
      exact ⟨tokens, block, rfl, follows, ends, read, whole 1 block read, Option.some.inj rest⟩

end StylusToScss
