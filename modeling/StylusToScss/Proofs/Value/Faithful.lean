import StylusToScss.Proofs.Token.Slices
import StylusToScss.Proofs.Value.Leaves

/-!
# Reading a value is faithful

The tree that is read from tokens says exactly these tokens, and its operations are grouped as
their operators bind (`Expression.ofTokens_faithful`). The proof follows the readers by the same
recursion: each of them gives a tree whose leaves the tokens that it takes spell. An operand with
operators of some least precedence is followed by no further operator of that precedence; this is
what groups the operators.
-/

namespace StylusToScss

variable {tokens rest : List Token} {token : Token}

/-! ## Tokens of a source -/

/-- The token is one of those that some source is cut into. -/
def Token.IsCut (token : Token) : Prop :=
  ∃ source tokens, tokenize source = .ok tokens ∧ token ∈ tokens

/-- A raw address starts with the first letter of its word. -/
def Addressed (tokens : List Token) : Prop :=
  ∀ token ∈ tokens, ∀ raw, token.kind = .url raw → ∃ more, raw.toList = 'u' :: more

theorem Addressed.suffix (h : Addressed tokens) (suffix : rest <:+ tokens) : Addressed rest :=
  fun token ht => h token (suffix.subset ht)

/-- The raw text of an address starts with its word. -/
theorem url_lexeme {previous : Option Char} {c : Char} {text : List Char} {item : Lexeme}
    {raw : String} (h : lexeme previous c text = .ok item) (url : item.kind = .url raw) :
    ∃ more, raw.toList = 'u' :: more := by
  have fixed : ∀ entry ∈ Kind.fixedKinds, (entry.2 matches .url _) = false := by decide
  unfold lexeme at h
  split at h
  · unfold Lexeme.string at h
    split at h <;> cases h
    cases url
  · split at h
    · unfold Lexeme.number at h
      split at h <;> cases h
      cases url
    · split at h
      · unfold Lexeme.name at h
        simp only at h
        split at h
        · next word =>
          split at h
          · cases h
            cases url
            obtain ⟨rfl, -⟩ := List.cons.inj word.1
            exact ⟨_, by rw [String.toList_ofList, List.append_assoc]; rfl⟩
          · cases h
        · cases h
          cases url
      · split at h
        · cases h
          simp only at url
          split at url <;> cases url
        · split at h
          · next found =>
            cases h
            have other := fixed _ (List.mem_of_find?_eq_some found)
            simp only at url other
            rw [url] at other
            cases other
          · split at h
            · cases h
            · cases h
              cases url

theorem addressed_of_isCut (h : ∀ token ∈ tokens, token.IsCut) : Addressed tokens := by
  intro token ht raw url
  obtain ⟨source, all, cut, mem⟩ := h token ht
  have content : token.kind.endsLine = false := by rw [url]; rfl
  obtain ⟨passed, c, text, item, lexeme⟩ := lexeme_of_tokenize cut mem content
  exact url_lexeme lexeme.read (lexeme.kind ▸ url)

/-! ## Texts without quotes -/

theorem plainKinds_hash (word : String) : plainKinds ("#" ++ word) = [.hash word] := by
  simp [plainKinds]

theorem plainKinds_url {raw : String} {more : List Char} (h : raw.toList = 'u' :: more) :
    plainKinds raw = [.url raw] := by
  simp [plainKinds, h]

/-! ## Operators -/

/-- The operator binds and groups as all operators of its spelling do. -/
structure Operator.Known (op : Operator) : Prop where
  binds : op.precedence = tightness op.spelling
  groups : op.groupsRight = true ↔ op.spelling = "**"
  power : op.spelling = "**" ↔ op.precedence = 8
  most : op.precedence ≤ 8

/-- An operator of one token is written with it. -/
theorem Operator.known_of_ofKind? {kind : Kind} {op : Operator} (h : ofKind? kind = some op) :
    op.Known ∧ operatorKinds op.spelling = [kind] ∧ kind.merged = kind := by
  unfold ofKind? at h
  split at h <;> cases h <;> exact ⟨⟨by decide, by decide, by decide, by decide⟩, by decide⟩

theorem Operator.known_isNot : isNot.Known := ⟨by decide, by decide, by decide, by decide⟩

/-- The operator at the front of tokens is what they say. -/
theorem operator?_spec {op : Taken 1 Operator tokens} (h : operator? tokens = some op) :
    op.value.Known ∧ Spells (plainLeaves (operatorKinds op.value.spelling)) tokens op.rest := by
  unfold operator? at h
  split at h
  · cases h
  · next token =>
    obtain ⟨op, spelled, rfl⟩ := Option.map_eq_some_iff.1 h
    obtain ⟨known, kinds, merged⟩ := Operator.known_of_ofKind? spelled
    refine ⟨known, ?_⟩
    show Spells (plainLeaves (operatorKinds op.spelling)) [token] []
    rw [kinds]
    exact .plain merged .nil
  · next token next rest =>
    split at h
    · next words =>
      cases h
      simp only [Bool.and_eq_true, Kind.isWord_iff] at words
      refine ⟨Operator.known_isNot, ?_⟩
      exact .plain (by rw [words.1]; rfl) (.plain (by rw [words.2]; rfl) .nil)
    · obtain ⟨op, spelled, rfl⟩ := Option.map_eq_some_iff.1 h
      obtain ⟨known, kinds, merged⟩ := Operator.known_of_ofKind? spelled
      refine ⟨known, ?_⟩
      show Spells (plainLeaves (operatorKinds op.spelling)) (token :: next :: rest) (next :: rest)
      rw [kinds]
      exact .plain merged .nil

/-- No operator of this precedence or a higher one stands at the front of the tokens. -/
def Below (least : Nat) (tokens : List Token) : Prop :=
  ∀ op, operator? tokens = some op → op.value.precedence < least

/-- An operator behind the right operand of another one takes that operation as its left operand. -/
theorem Operator.Known.bindsLeft {op next : Operator} (known : op.Known) (known' : next.Known)
    (below : next.precedence < op.rightPrecedence) : BindsLeft op.spelling next.spelling := by
  unfold rightPrecedence at below
  unfold BindsLeft
  rw [← known.binds, ← known'.binds]
  have most := known.most
  by_cases power : op.spelling = "**"
  · rw [if_pos (known.groups.2 power)] at below
    split <;> omega
  · rw [if_neg (mt known.groups.1 power)] at below
    have := mt known.power.2 power
    split
    · next power' =>
      have := known'.power.1 power'
      omega
    · omega

/-- The right operand of an operator may hold an operation that is read there. -/
theorem Operator.Known.bindsRight {op : Operator} {inner : String} (known : op.Known)
    (least : op.rightPrecedence ≤ tightness inner) : BindsRight inner op.spelling := by
  unfold rightPrecedence at least
  unfold BindsRight
  rw [← known.binds]
  by_cases power : op.spelling = "**"
  · rw [if_pos (known.groups.2 power)] at least
    rwa [if_pos power]
  · rw [if_neg (mt known.groups.1 power)] at least
    rwa [if_neg power]

/-! ## Readers -/

/-- A reading gives something good, which says the tokens that are taken. -/
abbrev Says {n : Nat} {α : Type} {tokens : List Token} (leaves : α → List Leaf)
    (good : α → List Token → Prop) (x : ReadResult n α tokens) : Prop :=
  Yields (fun taken => Spells (leaves taken.value) tokens taken.rest ∧ good taken.value taken.rest)
    (fun _ => True) x

/-- A node that is no operation stands bare on every side of an operator. -/
def Node.Single (node : Node) : Prop := node.operation? = none ∧ node.IsGrouped

/-- An operand with operators of a least precedence: it is grouped, if it is an operation then one
of such an operator, and no further one follows. -/
def Node.Climbed (least : Nat) (node : Node) (rest : List Token) : Prop :=
  node.IsGrouped ∧ (∀ op ∈ node.operation?, least ≤ tightness op) ∧ Below least rest

theorem Spells.called {name : String} {next : Token} {leaves : List Leaf}
    (same : token.kind = .ident name) (opens : next.kind = .leftParen)
    (touching : token.touches next = true) (more : Spells leaves tokens rest) :
    Spells (⟨.ident name, .callee⟩ :: .plain .leftParen :: leaves) (token :: next :: tokens)
      rest := by
  refine .cons ⟨by rw [same]; rfl, fun _ => ⟨fun _ => ?_, fun _ => rfl⟩⟩ (.plain ?_ more)
  · exact ⟨next, rfl, opens, touching⟩
  · rw [opens]; rfl

/-- A name that is not called. -/
theorem Spells.operand {name : String} (same : token.kind = .ident name)
    (bare : ∀ next ∈ rest.head?, next.kind = .leftParen → token.touches next = false) :
    Spells [⟨.ident name, .operand⟩] (token :: rest) rest := by
  refine .cons ⟨by rw [same]; rfl, fun _ => ⟨nofun, ?_⟩⟩ .nil
  rintro ⟨next, here, opens, touching⟩
  rw [bare next here opens] at touching
  cases touching

theorem listLeaves_singleton (commas : Bool) (node : Node) :
    listLeaves commas [node] = node.leaves := by
  simp [listLeaves, furtherLeaves]

theorem Expression.leaves_inParentheses {expression : Expression}
    (open_ : expression.parenthesized = false) :
    expression.inParentheses.leaves =
      .plain .leftParen :: (expression.leaves ++ [.plain .rightParen]) := by
  obtain ⟨nodes, isList, parenthesized, line⟩ := expression
  cases open_
  rfl

theorem Expression.leaves_asArgument (expression : Expression) :
    expression.asArgument.leaves = expression.leaves := by
  obtain ⟨nodes, isList, parenthesized, line⟩ := expression
  unfold asArgument
  split
  · next node single =>
    cases single
    cases parenthesized with
    | true => rfl
    | false => exact (listLeaves_singleton isList node).symm
  · rfl

theorem Expression.isGrouped_asArgument {expression : Expression} (h : expression.IsGrouped) :
    expression.asArgument.IsGrouped := by
  obtain ⟨nodes, isList, parenthesized, line⟩ := expression
  unfold asArgument
  split
  · next node single =>
    cases single
    cases parenthesized with
    | true => exact h
    | false => exact h.2.1
  · exact h

/-- Sequences as one expression say the first one, and then each further one behind a comma. -/
theorem Expression.leaves_ofSequences {first : Expression} (more : List Expression) (line : Nat) :
    (ofSequences first more line).leaves =
      first.leaves ++ furtherLeaves true (more.map .expression) := by
  unfold ofSequences
  split
  · next none =>
    rw [List.isEmpty_iff.1 none]
    exact (List.append_nil _).symm
  · show (Node.expression first).leaves ++ _ = _
    rw [Node.leaves_expression]

theorem Expression.isGrouped_ofSequences {first : Expression} {more : List Expression} {line : Nat}
    (hf : first.IsGrouped) (hm : ∀ e ∈ more, e.IsGrouped) :
    (ofSequences first more line).IsGrouped := by
  unfold ofSequences
  split
  · exact hf
  · refine ⟨List.cons_ne_nil _ _, areGrouped_iff.2 fun node hn => ?_⟩
    obtain ⟨e, he, rfl⟩ := List.mem_map.1 hn
    rcases List.mem_cons.1 he with rfl | he
    · exact Node.isGrouped_expression.2 hf
    · exact Node.isGrouped_expression.2 (hm e he)

theorem Expression.parenthesized_ofSequences {first : Expression} {more : List Expression}
    {line : Nat} (h : first.parenthesized = false) :
    (ofSequences first more line).parenthesized = false := by
  unfold ofSequences
  split
  · exact h
  · rfl

/-- A unit is kept as it is written. -/
theorem getD_unitOf (unit : String) : (unitOf unit).getD "" = unit := by
  unfold unitOf
  split
  · next none => exact none.symm
  · rfl

theorem ValueSite.line_ofTokens (tokens : List Token) (line : Nat) :
    (ofTokens tokens line).line = line := by
  unfold ofTokens
  split <;> rfl

variable (site : ValueSite)

theorem says_readClosing (tokens : List Token) :
    Says (fun _ => [.plain .rightParen]) (fun _ _ => True) (readClosing site tokens) := by
  unfold readClosing
  split
  · exact ⟨.plain rfl .nil, trivial⟩
  · trivial

theorem says_readSeparator (tokens : List Token) :
    Says (fun comma => [.plain (if comma then .comma else .rightParen)]) (fun _ _ => True)
      (readSeparator site tokens) := by
  unfold readSeparator
  split
  · exact ⟨.plain rfl .nil, trivial⟩
  · exact ⟨.plain rfl .nil, trivial⟩
  · trivial

theorem spells_important {word : Taken 1 Unit tokens} (h : important? tokens = some word)
    (line : Nat) : Spells (Node.plain "!important" line).leaves tokens word.rest := by
  unfold important? at h
  split at h
  · split at h
    · next words =>
      cases h
      simp only [Bool.and_eq_true, beq_iff_eq, Kind.isWord_iff] at words
      have kinds : plainKinds "!important" = [.bang, .ident "important"] := by decide
      show Spells (plainLeaves (plainKinds "!important")) _ _
      rw [kinds]
      exact .plain (by rw [words.1.1]; rfl) (.plain (by rw [words.2]; rfl) .nil)
    · cases h
  · cases h

/-- The spelling of a sign or word before an operand is that of its token. -/
theorem operatorKinds_of_unarySpelling? {kind : Kind} {spelling : String}
    (h : kind.unarySpelling? = some spelling) :
    operatorKinds spelling = [kind] ∧ kind.merged = kind := by
  unfold Kind.unarySpelling? at h
  split at h <;> cases h <;> decide

mutual

theorem says_readList (tokens : List Token) (h : Addressed tokens) :
    Says Expression.leaves (fun e _ => e.IsGrouped ∧ e.parenthesized = false)
      (readList site tokens) := by
  unfold readList
  refine (says_readSequence tokens h).bind fun first ⟨hs, grouped, bare⟩ => ?_
  have := first.rest_lt
  refine (says_readFurther first.rest (h.suffix hs.suffix)).bind fun more ⟨hm, all⟩ => ?_
  refine ⟨?_, Expression.isGrouped_ofSequences grouped all, ?_⟩
  · show Spells (Expression.ofSequences first.value more.value site.line).leaves _ _
    rw [Expression.leaves_ofSequences]
    exact hs.append hm
  · exact Expression.parenthesized_ofSequences bare
termination_by 16 * tokens.length + 7

theorem says_readFurther (tokens : List Token) (h : Addressed tokens) :
    Says (fun es : List Expression => furtherLeaves true (es.map .expression))
      (fun es _ => ∀ e ∈ es, e.IsGrouped) (readFurther site tokens) := by
  unfold readFurther
  generalize here : tokens = text at h
  split
  · next rest =>
    have less : rest.length < tokens.length := by simp [here]
    refine (says_readSequence rest (h.suffix (List.suffix_cons _ _))).bind ?_
    intro sequence ⟨hs, grouped, _⟩
    have := sequence.rest_lt
    have behind : Addressed sequence.rest :=
      h.suffix (hs.suffix.trans (List.suffix_cons _ _))
    refine (says_readFurther sequence.rest behind).bind fun more ⟨hm, all⟩ => ?_
    refine ⟨.plain rfl ?_, ?_⟩
    · show Spells ((Node.expression sequence.value).leaves ++ _) _ _
      rw [Node.leaves_expression]
      exact hs.append hm
    · rintro e (_ | ⟨_, he⟩)
      · exact grouped
      · exact all e he
  · exact ⟨.nil, fun _ he => nomatch he⟩
termination_by 16 * tokens.length + 0

theorem says_readSequence (tokens : List Token) (h : Addressed tokens) :
    Says Expression.leaves (fun e _ => e.IsGrouped ∧ e.parenthesized = false)
      (readSequence site tokens) := by
  unfold readSequence
  split
  · trivial
  · next token rest =>
    split
    · trivial
    · refine (says_readBinary 0 (token :: rest) h).bind fun first ⟨hf, grouped, _⟩ => ?_
      have := first.rest_lt
      refine (says_readOperands first.rest (h.suffix hf.suffix)).bind fun more ⟨hm, all⟩ => ?_
      refine ⟨?_, ⟨List.cons_ne_nil _ _, grouped, all⟩, rfl⟩
      show Spells (first.value.leaves ++ furtherLeaves false more.value) _ _
      rw [furtherLeaves_false]
      exact hf.append hm
termination_by 16 * tokens.length + 6

theorem says_readOperands (tokens : List Token) (h : Addressed tokens) :
    Says (listLeaves false) (fun nodes _ => AreGrouped nodes) (readOperands site tokens) := by
  unfold readOperands
  split
  · exact ⟨.nil, trivial⟩
  · next token rest =>
    split
    · exact ⟨.nil, trivial⟩
    · refine (says_readBinary 0 (token :: rest) h).bind fun first ⟨hf, grouped, _⟩ => ?_
      have := first.rest_lt
      refine (says_readOperands first.rest (h.suffix hf.suffix)).bind fun more ⟨hm, all⟩ => ?_
      refine ⟨?_, grouped, all⟩
      show Spells (first.value.leaves ++ furtherLeaves false more.value) _ _
      rw [furtherLeaves_false]
      exact hf.append hm
termination_by 16 * tokens.length + 6

theorem says_readBinary (least : Nat) (tokens : List Token) (h : Addressed tokens) :
    Says Node.leaves (Node.Climbed least) (readBinary site least tokens) := by
  unfold readBinary
  refine (says_readUnary tokens h).bind fun first ⟨hf, single, grouped⟩ => ?_
  have := first.rest_lt
  have behind := h.suffix hf.suffix
  refine (says_readOperators least first.value grouped ?_ first.rest behind ?_).bind ?_
  · intro op bare
    rw [single] at bare
    cases bare
  · intro op bare
    rw [single] at bare
    cases bare
  · intro whole ⟨more, leaves, hm, climbed⟩
    refine ⟨?_, climbed⟩
    show Spells whole.value.leaves _ _
    rw [leaves]
    exact hf.append hm
termination_by 16 * tokens.length + 5

/-- The loop over the operators. The operation that its left operand is, if it is one, binds at
least as tightly as the loop asks for, and may stand to the left of the next operator. -/
theorem says_readOperators (least : Nat) (left : Node) (grouped : left.IsGrouped)
    (tight : ∀ op ∈ left.operation?, least ≤ tightness op) (tokens : List Token)
    (h : Addressed tokens) (binds : ∀ op ∈ left.operation?, ∀ next,
      operator? tokens = some next → BindsLeft op next.value.spelling) :
    Yields (fun taken => ∃ more, taken.value.leaves = left.leaves ++ more ∧
        Spells more tokens taken.rest ∧ taken.value.Climbed least taken.rest) (fun _ => True)
      (readOperators site least left tokens) := by
  unfold readOperators
  split
  · next none =>
    refine ⟨[], (List.append_nil _).symm, .nil, grouped, tight, fun op some => ?_⟩
    rw [show operator? tokens = _ from some] at none
    cases none
  · next op here =>
    split
    · next loose =>
      refine ⟨[], (List.append_nil _).symm, .nil, grouped, tight, fun op' some => ?_⟩
      rw [show operator? tokens = _ from some] at here
      cases here
      exact loose
    · next least_le =>
      obtain ⟨known, ho⟩ := operator?_spec here
      have := op.rest_lt
      have behind := h.suffix ho.suffix
      refine (says_readBinary op.value.rightPrecedence op.rest behind).bind ?_
      intro right ⟨hr, grouped', tight', below⟩
      have := right.rest_lt
      refine (says_readOperators least (.binary op.value.spelling left right.value site.line)
        ⟨fun inner bare => binds inner bare op here,
          fun inner bare => known.bindsRight (tight' inner bare), grouped, grouped'⟩
        ?_ right.rest (behind.suffix hr.suffix) ?_).bind ?_
      · rintro _ ⟨⟩
        rw [← known.binds]
        exact Nat.not_lt.1 least_le
      · rintro _ ⟨⟩ next some
        exact known.bindsLeft (operator?_spec some).1 (below next some)
      · intro whole ⟨more, leaves, hm, climbed⟩
        refine ⟨_, ?_, (ho.append hr).append hm, climbed⟩
        show whole.value.leaves = _
        rw [leaves]
        simp [Node.leaves]
termination_by 16 * tokens.length + 0

theorem says_readUnary (tokens : List Token) (h : Addressed tokens) :
    Says Node.leaves (fun node _ => node.Single) (readUnary site tokens) := by
  unfold readUnary
  generalize here : tokens = text at h
  split
  · trivial
  · next token rest =>
    have less : rest.length < tokens.length := by simp [here]
    have behind : Addressed rest := h.suffix (List.suffix_cons _ _)
    split
    · next word some => exact ⟨spells_important some site.line, rfl, trivial⟩
    · split
      · next spelling sign =>
        obtain ⟨kinds, merged⟩ := operatorKinds_of_unarySpelling? sign
        refine (says_readUnary rest behind).bind fun operand ⟨ho, single, grouped⟩ => ?_
        refine ⟨?_, rfl, single, grouped⟩
        show Spells (plainLeaves (operatorKinds spelling) ++ _) _ _
        rw [kinds]
        exact .plain merged ho
      · exact (says_readPrimary token rest (h token (.head _)) behind).bind fun primary hp => hp
termination_by 16 * tokens.length + 4

theorem says_readPrimary (token : Token) (rest : List Token)
    (address : ∀ raw, token.kind = .url raw → ∃ more, raw.toList = 'u' :: more)
    (h : Addressed rest) :
    Yields (fun taken => Spells taken.value.leaves (token :: rest) taken.rest ∧ taken.value.Single)
      (fun _ => True) (readPrimary site token rest) := by
  unfold readPrimary
  split
  · next value unit kind =>
    refine ⟨.plain ?_ .nil, rfl, trivial⟩
    rw [kind, getD_unitOf]
    rfl
  · next value quote kind => exact ⟨.plain (by rw [kind]; rfl) .nil, rfl, trivial⟩
  · next word kind =>
    have leaves : plainLeaves (plainKinds ("#" ++ word)) = [.plain (.hash word)] := by
      rw [plainKinds_hash]
      rfl
    have spells : Spells (plainLeaves (plainKinds ("#" ++ word))) (token :: rest) rest := by
      rw [leaves]
      exact .plain (by rw [kind]; rfl) .nil
    split
    · exact ⟨spells, rfl, trivial⟩
    · exact ⟨spells, rfl, trivial⟩
  · next raw kind =>
    obtain ⟨more, starts⟩ := address raw kind
    refine ⟨?_, rfl, trivial⟩
    show Spells (plainLeaves (plainKinds raw)) _ _
    rw [plainKinds_url starts]
    exact .plain (by rw [kind]; rfl) .nil
  · next name kind => exact ⟨.plain (by rw [kind]; rfl) .nil, rfl, trivial⟩
  · next name kind => exact says_readName token name rest kind h
  · next kind =>
    refine (says_readList rest h).bind fun inner ⟨hi, grouped, bare⟩ => ?_
    refine (says_readClosing site inner.rest).bind fun closing ⟨hc, _⟩ => ?_
    refine ⟨?_, rfl, Node.isGrouped_expression.2 grouped⟩
    show Spells (Node.expression inner.value.inParentheses).leaves _ _
    rw [Node.leaves_expression, Expression.leaves_inParentheses bare]
    exact .plain (by rw [kind]; rfl) (hi.append hc)
  · trivial
termination_by 16 * rest.length + (16 + 3)

theorem says_readName (token : Token) (name : String) (rest : List Token)
    (kind : token.kind = .ident name) (h : Addressed rest) :
    Yields (fun taken => Spells taken.value.leaves (token :: rest) taken.rest ∧ taken.value.Single)
      (fun _ => True) (readName site token name rest) := by
  unfold readName
  split
  · next word => exact ⟨.plain (by rw [kind, word]; rfl) .nil, rfl, trivial⟩
  · split
    · next word => exact ⟨.plain (by rw [kind, word]; rfl) .nil, rfl, trivial⟩
    · generalize here : rest = text at h
      split
      · exact ⟨.operand kind nofun, rfl, trivial⟩
      · next next after =>
        have less : after.length < rest.length := by simp [here]
        have behind : Addressed after := h.suffix (List.suffix_cons _ _)
        split
        · next opens =>
          split
          · next touching =>
            refine (says_readArguments after behind).bind fun arguments ⟨ha, all⟩ => ?_
            exact ⟨.called kind opens touching ha, rfl, all⟩
          · next apart =>
            refine ⟨.operand kind ?_, rfl, trivial⟩
            rintro _ ⟨⟩ _
            simpa using apart
        · next assigns =>
          refine (says_readSequence after behind).bind fun e ⟨he, grouped, _⟩ => ?_
          refine ⟨.plain (by rw [kind]; rfl) (.plain (by rw [assigns]; rfl) ?_), rfl,
            Node.isGrouped_expression.2 grouped⟩
          rw [Node.leaves_expression]
          exact he
        · next assigns =>
          refine (says_readSequence after behind).bind fun e ⟨he, grouped, _⟩ => ?_
          refine ⟨.plain (by rw [kind]; rfl) (.plain (by rw [assigns]; rfl) ?_), rfl,
            Node.isGrouped_expression.2 grouped⟩
          rw [Node.leaves_expression]
          exact he
        · next closed _ _ =>
          refine ⟨.operand kind ?_, rfl, trivial⟩
          rintro _ ⟨⟩ opens
          exact absurd opens closed
termination_by 16 * rest.length + (16 + 2)

theorem says_readArguments (tokens : List Token) (h : Addressed tokens) :
    Says (fun nodes => listLeaves true nodes ++ [.plain .rightParen])
      (fun nodes _ => AreGrouped nodes) (readArguments site tokens) := by
  unfold readArguments
  split
  · exact ⟨.plain rfl .nil, trivial⟩
  · exact (says_readArgumentList tokens h).mono fun taken ⟨hs, all, _⟩ => ⟨hs, all⟩
termination_by 16 * tokens.length + 10

theorem says_readArgumentList (tokens : List Token) (h : Addressed tokens) :
    Says (fun nodes => listLeaves true nodes ++ [.plain .rightParen])
      (fun nodes _ => AreGrouped nodes ∧ nodes ≠ []) (readArgumentList site tokens) := by
  unfold readArgumentList
  refine (says_readArgument tokens h).bind fun first ⟨hf, grouped⟩ => ?_
  have := first.rest_lt
  refine (says_readSeparator site first.rest).bind fun separator ⟨hs, _⟩ => ?_
  have := separator.rest_lt
  split
  · next comma =>
    simp only [comma, if_true] at hs
    have behind := (h.suffix hf.suffix).suffix hs.suffix
    refine (says_readArgumentList separator.rest behind).bind fun more ⟨hm, all, notNil⟩ => ?_
    refine ⟨?_, ⟨grouped, all⟩, List.cons_ne_nil _ _⟩
    show Spells (first.value.leaves ++ furtherLeaves true more.value ++ _) _ _
    rw [furtherLeaves_true notNil, List.append_assoc]
    exact hf.append (hs.append hm)
  · next closes =>
    simp only [closes, if_false, Bool.false_eq_true] at hs
    refine ⟨?_, ⟨grouped, trivial⟩, List.cons_ne_nil _ _⟩
    show Spells (listLeaves true [first.value] ++ _) _ _
    rw [listLeaves_singleton]
    exact hf.append hs
termination_by 16 * tokens.length + 9

theorem says_readArgument (tokens : List Token) (h : Addressed tokens) :
    Says Node.leaves (fun node _ => node.IsGrouped) (readArgument site tokens) := by
  unfold readArgument
  generalize here : tokens = text at h
  split
  · next rest =>
    have less : rest.length < tokens.length := by
      rw [here, List.length_cons, List.length_cons]
      omega
    have behind : Addressed rest :=
      h.suffix ((List.suffix_cons _ _).trans (List.suffix_cons _ _))
    refine (says_readSequence rest behind).bind fun e ⟨he, grouped, _⟩ => ?_
    refine ⟨.plain rfl (.plain rfl ?_), Node.isGrouped_expression.2 grouped⟩
    rw [Node.leaves_expression]
    exact he
  · refine (says_readSequence _ h).bind fun e ⟨he, grouped, _⟩ => ?_
    refine ⟨?_, Expression.isGrouped_asArgument grouped⟩
    show Spells e.value.asArgument.leaves _ _
    rw [Expression.leaves_asArgument]
    exact he
termination_by 16 * tokens.length + 8

end

/-! ## Whole values -/

/-- A value takes all of its tokens, and says them. -/
theorem spells_ofTokens (h : Addressed tokens) (line : Nat) :
    Yields (fun e => Spells e.leaves tokens [] ∧ e.IsGrouped) (fun _ => True)
      (Expression.ofTokens tokens line) := by
  unfold Expression.ofTokens
  refine (says_readList (.ofTokens tokens line) tokens h).bind fun whole ⟨hs, grouped, _⟩ => ?_
  split
  · next all =>
    rw [all] at hs
    exact ⟨hs, grouped⟩
  · trivial

/-- A value that is read from tokens of sources says these tokens from left to right, and its
operations are grouped as their operators bind. A name that is read as an operand, and that an
opening parenthesis follows, is the name of a call exactly where the two touch. -/
theorem Expression.ofTokens_faithful {line : Nat} {e : Expression}
    (cut : ∀ token ∈ tokens, token.IsCut) (h : ofTokens tokens line = .ok e) :
    e.leaves.map (·.kind) = tokens.map (·.kind.merged) ∧ e.IsGrouped ∧
      ∀ before token next after leaf, tokens = before ++ token :: next :: after →
        e.leaves[before.length]? = some leaf → leaf.role ≠ .other → next.kind = .leftParen →
          (leaf.role = .callee ↔ token.touches next = true) := by
  obtain ⟨spells, grouped⟩ := (spells_ofTokens (addressed_of_isCut cut) line).of_eq_ok h
  refine ⟨spells.kinds, grouped, ?_⟩
  intro before token next after leaf split here named opens
  rw [(spells.fits split here).called named]
  constructor
  · rintro ⟨_, ⟨⟩, _, touching⟩
    exact touching
  · intro touching
    exact ⟨next, rfl, opens, touching⟩

/-- A call, and a name that a parenthesis follows behind a blank. -/
theorem faithful_call : ∃ tokens e,
    tokenize "f(-$a) b (c)" = .ok (tokens ++ [⟨.endOfInput, ⟨12, 12, 1, 13⟩⟩]) ∧
    (∀ token ∈ tokens, token.IsCut) ∧ Expression.ofTokens tokens 1 = .ok e ∧
    e.leaves.map (·.kind) = tokens.map (·.kind.merged) ∧ e.IsGrouped ∧
    (e.leaves[0]?.map (·.role) = some .callee ↔
      Token.touches ⟨.ident "f", ⟨0, 1, 1, 1⟩⟩ ⟨.leftParen, ⟨1, 2, 1, 2⟩⟩ = true) ∧
    (e.leaves[5]?.map (·.role) = some .callee ↔
      Token.touches ⟨.ident "b", ⟨7, 8, 1, 8⟩⟩ ⟨.leftParen, ⟨9, 10, 1, 10⟩⟩ = true) := by
  obtain ⟨tokens, same⟩ : ∃ tokens : List Token, tokens = [⟨.ident "f", ⟨0, 1, 1, 1⟩⟩,
      ⟨.leftParen, ⟨1, 2, 1, 2⟩⟩, ⟨.minus, ⟨2, 3, 1, 3⟩⟩, ⟨.ident "$a", ⟨3, 5, 1, 4⟩⟩,
      ⟨.rightParen, ⟨5, 6, 1, 6⟩⟩, ⟨.ident "b", ⟨7, 8, 1, 8⟩⟩, ⟨.leftParen, ⟨9, 10, 1, 10⟩⟩,
      ⟨.ident "c", ⟨10, 11, 1, 11⟩⟩, ⟨.rightParen, ⟨11, 12, 1, 12⟩⟩] := ⟨_, rfl⟩
  have cut : tokenize "f(-$a) b (c)" = .ok (tokens ++ [⟨.endOfInput, ⟨12, 12, 1, 13⟩⟩]) := by
    rw [same]
    decide +kernel
  have each : ∀ token ∈ tokens, token.IsCut := fun token ht =>
    ⟨_, _, cut, List.mem_append_left _ ht⟩
  have said : (Expression.ofTokens tokens 1).toOption.map (fun e => (e.leaves[0]?, e.leaves[5]?)) =
      some (some ⟨.ident "f", .callee⟩, some ⟨.ident "b", .operand⟩) := by
    rw [same]
    decide +kernel
  cases read : Expression.ofTokens tokens 1 with
  | error fault =>
    rw [read] at said
    cases said
  | ok e =>
    rw [read] at said
    obtain ⟨first, second⟩ := Prod.mk.inj (Option.some.inj said)
    obtain ⟨kinds, grouped, roles⟩ := Expression.ofTokens_faithful each read
    refine ⟨tokens, e, cut, each, read, kinds, grouped, ?_, ?_⟩
    · rw [first, ← roles [] _ _ _ _ same first nofun rfl]
      exact Option.some_inj
    · rw [second, ← roles [_, _, _, _, _] _ _ _ _ same second nofun rfl]
      exact Option.some_inj

end StylusToScss
