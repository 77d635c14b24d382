import Mathlib.Data.List.Chain
import StylusToScss.Proofs.Tree.Renumbered
import StylusToScss.Proofs.Value.Faithful

/-!
# Reading an operator tree back

Reading is complete on trees of operators: a tree whose operations are grouped as their operators
bind (`Node.Writable`) is read from the tokens that it says, and nothing else is read from them
(`Expression.ofTokens_writable`). The operators are read in a loop that has the operand on the left
in hand, so the induction on the tree does not speak of one call of a reader: from the first operand
on the left edge of a tree, the loop comes to where it would be with the whole tree in hand
(`Node.Regroups`).

* `Node.Written`: the trees of this kind that conversions write, all of whose nodes are on one line.
-/

namespace StylusToScss

/-! ## Trees of operators -/

/-- The binary operators of the output. -/
def writtenOperators : List String :=
  ["or", "and", "==", "!=", "<", ">", "<=", ">=", "..", "...", "+", "-", "*", "/", "%", "**"]

/-- The signs and words of the output that stand before an operand. -/
def writtenSigns : List String := ["not", "-", "+"]

/-- A tree of operators over variables and numbers, in which operations stand bare only where their
operators bind, with all nodes on this line. -/
inductive Node.Written (line : Nat) : Node → Prop
  | name {name : String} (dollar : name.toList.head? = some '$') : Written line (.name name line)
  | measure (value : Binary64) {unit : Option String} (lettered : unit ≠ some "") :
      Written line (.measure value unit line)
  | unary {op : String} {operand : Node} (sign : op ∈ writtenSigns)
      (single : operand.operation? = none) (h : Written line operand) :
      Written line (.unary op operand line)
  | binary {op : String} {left right : Node} (known : op ∈ writtenOperators)
      (bindsLeft : ∀ inner ∈ left.operation?, BindsLeft inner op)
      (bindsRight : ∀ inner ∈ right.operation?, BindsRight inner op)
      (hl : Written line left) (hr : Written line right) :
      Written line (.binary op left right line)
  | parenthesized {node : Node} (h : Written line node) :
      Written line (.expression ⟨[node], false, true, line⟩)

/-- The kinds of the tokens that a tree says. -/
def Node.kinds (node : Node) : List Kind := node.leaves.map (·.kind)

/-- A tree of operators that can be written down. Its leaves are what a number, a string or a name
token stands for, but for the words that are no names where an operand is read. Operations stand
bare only where their operators bind, and the word `not` does not follow the operator `is`, as the
two would be one operator. -/
inductive Node.Writable : Node → Prop
  | name {name : String} {line : Nat} (free : name ∉ ["true", "false", "not"]) :
      Writable (.name name line)
  | number (value : Binary64) (unit : String) (line : Nat) :
      Writable (.measure value (unitOf unit) line)
  | string (value : String) (quote : Char) (line : Nat) :
      Writable (.literal ⟨value, some quote, line⟩)
  | unary {op : String} {operand : Node} {line : Nat} (sign : op ∈ ["!", "not", "-", "+"])
      (single : operand.operation? = none) (h : Writable operand) :
      Writable (.unary op operand line)
  | binary {op : String} {left right : Node} {line : Nat} (known : tightness op ≠ 0)
      (bindsLeft : ∀ inner ∈ left.operation?, BindsLeft inner op)
      (bindsRight : ∀ inner ∈ right.operation?, BindsRight inner op)
      (apart : op = "is" → right.kinds.head? ≠ some (.ident "not"))
      (hl : Writable left) (hr : Writable right) : Writable (.binary op left right line)
  | parenthesized {node : Node} {line : Nat} (h : Writable node) :
      Writable (.expression ⟨[node], false, true, line⟩)

/-- The tree with all nodes on one line. -/
abbrev Node.onLine (line : Nat) (node : Node) : Node := node.renumbered fun _ => line

section

variable (op : String) (left right node : Node) (line : Nat)

theorem kinds_plainLeaves (kinds : List Kind) : (plainLeaves kinds).map (·.kind) = kinds := by
  rw [plainLeaves, List.map_map]
  exact List.map_id' kinds

theorem Node.kinds_unary : (Node.unary op node line).kinds = operatorKinds op ++ node.kinds := by
  rw [kinds, leaves, List.map_append, kinds_plainLeaves]
  rfl

theorem Node.kinds_binary :
    (Node.binary op left right line).kinds = left.kinds ++ (operatorKinds op ++ right.kinds) := by
  rw [kinds, leaves, List.map_append, List.map_append, kinds_plainLeaves]
  rfl

theorem Node.kinds_parenthesized : (Node.expression ⟨[node], false, true, line⟩).kinds =
    .leftParen :: (node.kinds ++ [.rightParen]) := by
  rw [kinds, leaves_expression, Expression.leaves, if_pos rfl, listLeaves_singleton, List.map_cons,
    List.map_append]
  rfl

end

/-- A sign is one token, which reads as that sign. -/
theorem sign_kind {op : String} (sign : op ∈ ["!", "not", "-", "+"]) : ∃ kind,
    operatorKinds op = [kind] ∧ kind.unarySpelling? = some op ∧ kind.endsSequence = false := by
  simp only [List.mem_cons, List.not_mem_nil, or_false] at sign
  rcases sign with rfl | rfl | rfl | rfl <;> exact ⟨_, rfl, by decide, rfl⟩

/-- The first token of a tree of operators does not end a sequence of operands. -/
theorem Node.Writable.kinds_head {node : Node} (h : node.Writable) :
    ∃ kind kinds, node.kinds = kind :: kinds ∧ kind.endsSequence = false := by
  induction h with
  | name | number | string => exact ⟨_, _, rfl, rfl⟩
  | unary sign =>
    obtain ⟨kind, kinds, -, solid⟩ := sign_kind sign
    rw [kinds_unary, kinds]
    exact ⟨kind, _, rfl, solid⟩
  | binary _ _ _ _ _ _ ih =>
    obtain ⟨kind, kinds, same, solid⟩ := ih
    rw [kinds_binary, same]
    exact ⟨kind, _, rfl, solid⟩
  | parenthesized =>
    rw [kinds_parenthesized]
    exact ⟨_, _, rfl, rfl⟩

/-- A unit that is not empty is the one of its token. -/
theorem unitOf_getD {unit : Option String} (lettered : unit ≠ some "") :
    unitOf (unit.getD "") = unit := by
  cases unit with
  | none => rfl
  | some unit =>
    have : unit ≠ "" := fun none => lettered (congrArg some none)
    simp [unitOf, this]

/-- The trees that are written can be written down, and stand on one line. -/
theorem Node.Written.writable {line : Nat} {node : Node} (h : node.Written line) :
    node.Writable ∧ node.onLine line = node := by
  induction h with
  | name dollar =>
    refine ⟨.name ?_, rfl⟩
    intro word
    simp only [List.mem_cons, List.not_mem_nil, or_false] at word
    rcases word with rfl | rfl | rfl <;> exact absurd dollar (by decide)
  | measure value lettered => exact ⟨unitOf_getD lettered ▸ .number value _ line, rfl⟩
  | unary sign single _ ih =>
    exact ⟨.unary (List.mem_cons_of_mem _ sign) single ih.1,
      congrArg (Node.unary _ · line) ih.2⟩
  | @binary op left right known bindsLeft bindsRight _ _ ihl ihr =>
    have all : ∀ op ∈ writtenOperators, tightness op ≠ 0 ∧ op ≠ "is" := by decide
    have same : (Node.binary op left right line).onLine line =
        .binary op (left.onLine line) (right.onLine line) line := rfl
    refine ⟨.binary (all op known).1 bindsLeft bindsRight ?_ ihl.1 ihr.1, ?_⟩
    · exact fun word => absurd word (all op known).2
    · rw [same, ihl.2, ihr.2]
  | @parenthesized node _ ih =>
    have same : (Node.expression ⟨[node], false, true, line⟩).onLine line =
        .expression ⟨[node.onLine line], false, true, line⟩ := rfl
    exact ⟨.parenthesized ih.1, by rw [same, ih.2]⟩

/-! ## Tokens of given kinds -/

/-- The tokens up to `rest` are of these kinds. -/
inductive Shows : List Kind → List Token → List Token → Prop
  | nil {rest : List Token} : Shows [] rest rest
  | cons {kind : Kind} {kinds : List Kind} {token : Token} {tokens rest : List Token}
      (same : token.kind = kind) (more : Shows kinds tokens rest) :
      Shows (kind :: kinds) (token :: tokens) rest

theorem shows_map (tokens : List Token) : Shows (tokens.map (·.kind)) tokens [] := by
  induction tokens with
  | nil => exact .nil
  | cons token tokens ih => exact .cons rfl ih

theorem Shows.split {a b : List Kind} {tokens rest : List Token} (h : Shows (a ++ b) tokens rest) :
    ∃ middle, Shows a tokens middle ∧ Shows b middle rest := by
  induction a generalizing tokens with
  | nil => exact ⟨tokens, .nil, h⟩
  | cons kind a ih =>
    cases h with
    | cons same more =>
      obtain ⟨middle, ha, hb⟩ := ih more
      exact ⟨middle, .cons same ha, hb⟩

theorem Shows.suffix {kinds : List Kind} {tokens rest : List Token}
    (h : Shows kinds tokens rest) : rest <:+ tokens := by
  induction h with
  | nil => exact List.suffix_rfl
  | cons _ _ ih => exact ih.trans (List.suffix_cons _ _)

theorem Shows.head {kinds : List Kind} {tokens rest : List Token} (h : Shows kinds tokens rest)
    (some : kinds ≠ []) : tokens.head?.map (·.kind) = kinds.head? := by
  cases h with
  | nil => exact absurd rfl some
  | cons same => exact congrArg Option.some same

/-- What follows a name does not make it a call or give it a value. -/
def Follows (rest : List Token) : Prop :=
  ∀ next ∈ rest.head?, next.kind ∉ [.leftParen, .assign, .conditionalAssign]

/-- The mark `!important` stands nowhere among the tokens. -/
def Unmarked (tokens : List Token) : Prop := ∀ rest, rest <:+ tokens → important? rest = none

theorem Unmarked.suffix {tokens rest : List Token} (h : Unmarked tokens)
    (suffix : rest <:+ tokens) : Unmarked rest :=
  fun part hp => h part (hp.trans suffix)

theorem important?_eq_none {token : Token} (other : token.kind ≠ .bang) (tokens : List Token) :
    important? (token :: tokens) = none := by
  cases tokens with
  | nil => rfl
  | cons next tokens => simp [important?, other]

/-- The two tokens of the mark touch. -/
theorem unmarked_of_apart {tokens : List Token}
    (h : tokens.IsChain fun token next => token.touches next = false) : Unmarked tokens := by
  intro rest suffix
  have apart := h.suffix suffix
  cases apart with
  | nil | singleton => rfl
  | cons_cons apart => simp [important?, apart]

theorem unmarked_of_ne {tokens : List Token} (h : ∀ token ∈ tokens, token.kind ≠ .bang) :
    Unmarked tokens := by
  intro rest suffix
  cases rest with
  | nil => rfl
  | cons token rest => exact important?_eq_none (h token (suffix.subset (.head _))) rest

/-- No tree that is written says an exclamation mark. -/
theorem Node.Written.bang_not_mem {line : Nat} {node : Node} (h : node.Written line) :
    .bang ∉ node.kinds := by
  have all : ∀ op ∈ writtenOperators ++ writtenSigns, .bang ∉ operatorKinds op := by decide
  induction h with
  | name | measure => simp [kinds, leaves, Node.name, Leaf.plain]
  | unary sign _ _ ih =>
    rw [kinds_unary, List.mem_append, not_or]
    exact ⟨all _ (List.mem_append_right _ sign), ih⟩
  | binary known _ _ _ _ ihl ihr =>
    rw [kinds_binary, List.mem_append, List.mem_append, not_or, not_or]
    exact ⟨ihl, all _ (List.mem_append_left _ known), ihr⟩
  | parenthesized _ ih =>
    rw [kinds_parenthesized]
    simpa using ih

/-! ## Operators -/

/-- The least tightness of an operation on the right of this operator. -/
def rightTightness (op : String) : Nat := if op = "**" then tightness op else tightness op + 1

/-- An operator is the two words `is not`, or one token, which reads as that operator. -/
theorem operator_kinds {op : String} (known : tightness op ≠ 0) : op = "is not" ∨ ∃ kind,
    operatorKinds op = [kind] ∧ Operator.ofKind? kind = some ⟨op, tightness op, op == "**"⟩ ∧
      (kind.isWord "is" = true → op = "is") ∧
      kind ∉ [.leftParen, .assign, .conditionalAssign] := by
  have all : ∀ op ∈ writtenOperators ++ ["||", "&&", "is", "isnt"], ∃ kind,
      operatorKinds op = [kind] ∧ Operator.ofKind? kind = some ⟨op, tightness op, op == "**"⟩ ∧
        (kind.isWord "is" = true → op = "is") ∧
        kind ∉ [.leftParen, .assign, .conditionalAssign] := by
    simp only [writtenOperators, List.cons_append, List.nil_append, List.forall_mem_cons]
    repeat' apply And.intro
    all_goals first
      | exact ⟨_, rfl, by decide, by decide, by decide⟩
      | exact List.forall_mem_nil _
  have listed : op = "is not" ∨ op ∈ writtenOperators ++ ["||", "&&", "is", "isnt"] := by
    revert known
    unfold tightness
    split <;> intro known
    all_goals first | exact absurd rfl known | decide
  exact listed.imp_right (all op)

theorem operator?_of_kind {token : Token} {op : Operator} {tokens : List Token}
    (spelled : Operator.ofKind? token.kind = some op)
    (apart : token.kind.isWord "is" = true → ∀ next ∈ tokens.head?, next.kind ≠ .ident "not") :
    operator? (token :: tokens) = some (.first op) := by
  unfold operator?
  cases tokens with
  | nil => simp [spelled]
  | cons next tokens =>
    have one : (token.kind.isWord "is" && next.kind.isWord "not") = false := by
      rw [Bool.and_eq_false_imp]
      intro word
      exact Bool.eq_false_iff.2 (mt Kind.isWord_iff.1 (apart word next rfl))
    simp [one, spelled]

/-- An operator is read from its tokens, unless the word `not` follows the operator `is`. -/
theorem operator?_of_shows {op : String} (known : tightness op ≠ 0) {tokens rest : List Token}
    (shown : Shows (operatorKinds op) tokens rest)
    (apart : op = "is" → ∀ next ∈ rest.head?, next.kind ≠ .ident "not") :
    Follows tokens ∧ ∃ read, operator? tokens = some read ∧
      read.value = ⟨op, tightness op, op == "**"⟩ ∧ read.rest = rest := by
  obtain rfl | ⟨kind, kinds, spelled, word, plain⟩ := operator_kinds known
  · replace shown : Shows [.ident "is", .ident "not"] tokens rest := shown
    obtain _ | ⟨first, _ | ⟨second, _ | _⟩⟩ := shown
    refine ⟨?_, (Taken.first Operator.isNot).behind, ?_, rfl, rfl⟩
    · rintro next ⟨⟩
      simp [first]
    · simp [operator?, first, second, Kind.isWord]
  · rw [kinds] at shown
    obtain _ | @⟨_, _, token, _, _, rfl, _ | _⟩ := shown
    refine ⟨?_, .first _, operator?_of_kind spelled fun is => apart (word is), rfl, rfl⟩
    rintro next ⟨⟩
    exact plain

theorem tightness_le (op : String) : tightness op ≤ 8 := by
  unfold tightness
  split <;> decide

theorem tightness_lt {op : String} (other : op ≠ "**") : tightness op < 8 := by
  unfold tightness
  split <;> first | decide | exact absurd rfl other

theorem tightness_le_rightTightness (op : String) : tightness op ≤ rightTightness op := by
  unfold rightTightness
  split <;> omega

/-! ## Readings -/

/-- The reading succeeds with this value, and these tokens are left. -/
def Gives {n : Nat} {α : Type} {tokens : List Token} (x : ReadResult n α tokens) (value : α)
    (rest : List Token) : Prop :=
  ∃ taken, x = .ok taken ∧ taken.value = value ∧ taken.rest = rest

theorem Gives.bind {n k : Nat} {α β : Type} {tokens tokens' middle rest : List Token}
    {x : ReadResult n α tokens} {f : Taken n α tokens → ReadResult k β tokens'} {a : α} {b : β}
    (h : Gives x a middle)
    (next : ∀ taken, taken.value = a → taken.rest = middle → Gives (f taken) b rest) :
    Gives (x >>= f) b rest := by
  obtain ⟨taken, rfl, value, left⟩ := h
  exact next taken value left

section

variable {site : ValueSite} {least : Nat} {tokens middle rest : List Token} {token : Token}
  {first left node operand right whole : Node}

theorem gives_readBinary (hf : Gives (readUnary site tokens) first middle)
    (ho : Gives (readOperators site least first middle) whole rest) :
    Gives (readBinary site least tokens) whole rest := by
  rw [readBinary]
  refine hf.bind ?_
  rintro taken rfl rfl
  refine ho.bind ?_
  rintro taken' rfl rfl
  exact ⟨_, rfl, rfl, rfl⟩

/-- Where no operator of the least precedence follows, the operand on the left is all. -/
theorem gives_readOperators_done (below : Below least tokens) :
    Gives (readOperators site least left tokens) left tokens := by
  rw [readOperators]
  split
  · exact ⟨_, rfl, rfl, rfl⟩
  · next op read =>
    rw [if_pos (below op read)]
    exact ⟨_, rfl, rfl, rfl⟩

/-- An operator with its right operand goes to the operand on the left. -/
theorem gives_readOperators_step {op : Taken 1 Operator tokens} (read : operator? tokens = some op)
    (tight : least ≤ op.value.precedence)
    (hr : Gives (readBinary site op.value.rightPrecedence op.rest) right middle)
    (ho : Gives (readOperators site least (.binary op.value.spelling left right site.line) middle)
      whole rest) :
    Gives (readOperators site least left tokens) whole rest := by
  rw [readOperators]
  split
  · next none =>
    rw [read] at none
    cases none
  · next read' =>
    rw [read] at read'
    cases read'
    refine (congrArg (Gives · whole rest) (if_neg (Nat.not_lt.2 tight))).mpr ?_
    refine hr.bind ?_
    rintro taken rfl rfl
    refine ho.bind ?_
    rintro taken' rfl rfl
    exact ⟨_, rfl, rfl, rfl⟩

theorem gives_readUnary_sign {op : String} (unmarked : important? (token :: tokens) = none)
    (sign : token.kind.unarySpelling? = some op) (h : Gives (readUnary site tokens) operand rest) :
    Gives (readUnary site (token :: tokens)) (.unary op operand site.line) rest := by
  rw [readUnary]
  split
  · next important =>
    rw [unmarked] at important
    cases important
  · split
    · next spelled =>
      rw [sign] at spelled
      cases spelled
      refine h.bind ?_
      rintro taken rfl rfl
      exact ⟨_, rfl, rfl, rfl⟩
    · next none =>
      rw [sign] at none
      cases none

theorem gives_readUnary_primary (plain : token.kind ≠ .bang)
    (unsigned : token.kind.unarySpelling? = none)
    (h : Gives (readPrimary site token tokens) node rest) :
    Gives (readUnary site (token :: tokens)) node rest := by
  rw [readUnary]
  split
  · next important =>
    rw [important?_eq_none plain] at important
    cases important
  · split
    · next spelled =>
      rw [unsigned] at spelled
      cases spelled
    · refine h.bind ?_
      rintro taken rfl rfl
      exact ⟨_, rfl, rfl, rfl⟩

theorem gives_readName {name : String} (free : name ∉ ["true", "false", "not"])
    (follows : Follows rest) :
    Gives (readName site token name rest) (.name name site.line) rest := by
  simp only [List.mem_cons, List.not_mem_nil, or_false, not_or] at free
  rw [readName.eq_def, if_neg free.1, if_neg free.2.1]
  cases rest with
  | nil => exact ⟨_, rfl, rfl, rfl⟩
  | cons next after =>
    have plain := follows next rfl
    simp only [List.mem_cons, List.not_mem_nil, or_false, not_or] at plain
    obtain ⟨noCall, noValue, noDefault⟩ := plain
    simp only
    exact ⟨_, rfl, rfl, rfl⟩

/-- One operand that nothing else of a sequence or a list follows. -/
theorem gives_readList (solid : token.kind.endsSequence = false)
    (h : Gives (readBinary site 0 (token :: tokens)) node rest)
    (ended : ∀ next ∈ rest.head?, next.kind = .rightParen) :
    Gives (readList site (token :: tokens)) (.sequence [node] site.line) rest := by
  have none : Gives (readOperands site rest) [] rest ∧ Gives (readFurther site rest) [] rest := by
    rw [readOperands.eq_def, readFurther.eq_def]
    cases rest with
    | nil => exact ⟨⟨_, rfl, rfl, rfl⟩, ⟨_, rfl, rfl, rfl⟩⟩
    | cons next rest =>
      obtain ⟨kind, span⟩ := next
      obtain rfl : kind = .rightParen := ended _ rfl
      exact ⟨⟨_, rfl, rfl, rfl⟩, ⟨_, rfl, rfl, rfl⟩⟩
  have sequence :
      Gives (readSequence site (token :: tokens)) (.sequence [node] site.line) rest := by
    rw [readSequence, if_neg (by simp [solid])]
    refine h.bind ?_
    rintro taken rfl rfl
    refine none.1.bind ?_
    intro taken' value left
    exact ⟨_, rfl, by simp [Taken.andThen, value], left⟩
  rw [readList]
  refine sequence.bind ?_
  rintro taken value rfl
  refine none.2.bind ?_
  intro taken' value' left
  exact ⟨_, rfl, by simp [Taken.andThen, value, value', Expression.ofSequences], left⟩

end

/-! ## Trees read back -/

/-- Nothing binds the tree to what follows it: no operator follows that the operation it is takes
for its right operand. -/
def Node.Closed (node : Node) (rest : List Token) : Prop :=
  Follows rest ∧ ∀ op ∈ node.operation?, Below (rightTightness op) rest

/-- From the tokens that a tree says, the operand at its left edge is read first; from there on the
loop of the operators ends as from the whole tree. A tree that is no operation is an operand. -/
structure Node.Regroups (site : ValueSite) (node : Node) : Prop where
  single : node.operation? = none → ∀ tokens rest, Unmarked tokens →
    Shows node.kinds tokens rest → Follows rest →
    Gives (readUnary site tokens) (node.onLine site.line) rest
  climbs : ∀ tokens rest least, Unmarked tokens → Shows node.kinds tokens rest →
    node.Closed rest → (∀ op ∈ node.operation?, least ≤ tightness op) →
    ∃ first middle, Gives (readUnary site tokens) first middle ∧
      ∀ whole after, Gives (readOperators site least (node.onLine site.line) rest) whole after →
        Gives (readOperators site least first middle) whole after

section

variable {site : ValueSite} {node : Node} {line : Nat} {tokens rest : List Token}

/-- An operand is the left edge of itself. -/
theorem Node.Regroups.of_single
    (h : ∀ tokens rest, Unmarked tokens → Shows node.kinds tokens rest → Follows rest →
      Gives (readUnary site tokens) (node.onLine site.line) rest) : node.Regroups site where
  single _ := h
  climbs tokens rest _ unmarked shown closed _ :=
    ⟨node.onLine site.line, rest, h tokens rest unmarked shown closed.1, fun _ _ => id⟩

theorem Below.mono {least most : Nat} (h : Below least tokens) (le : least ≤ most) :
    Below most tokens :=
  fun op read => Nat.lt_of_lt_of_le (h op read) le

/-- A whole operand with operators of a least tightness is read where no such operator follows. -/
theorem Node.Regroups.binary {least : Nat} (h : node.Regroups site) (unmarked : Unmarked tokens)
    (shown : Shows node.kinds tokens rest) (follows : Follows rest) (below : Below least rest)
    (tight : ∀ op ∈ node.operation?, least ≤ tightness op) :
    Gives (readBinary site least tokens) (node.onLine site.line) rest := by
  have closed : node.Closed rest := by
    refine ⟨follows, fun op bare => below.mono ?_⟩
    exact Nat.le_trans (tight op bare) (tightness_le_rightTightness op)
  obtain ⟨first, middle, hf, climb⟩ := h.climbs tokens rest least unmarked shown closed tight
  exact gives_readBinary hf (climb _ rest (gives_readOperators_done below))

/-- At the end and before a closing parenthesis no operator follows. -/
theorem closed_of_ended (ended : ∀ next ∈ rest.head?, next.kind = .rightParen) :
    Follows rest ∧ ∀ least, Below least rest := by
  refine ⟨?_, ?_⟩
  · intro next here
    rw [ended next here]
    decide
  · intro least op read
    cases rest with
    | nil => cases read
    | cons next rest =>
      have kind := ended next rfl
      have none : operator? (next :: rest) = none := by
        cases rest with
        | nil => simp [operator?, kind, Operator.ofKind?]
        | cons _ _ => simp [operator?, kind, Operator.ofKind?, Kind.isWord]
      rw [none] at read
      cases read

/-- An operation on the left of an operator that binds as it has to is read before it. -/
theorem lt_rightTightness {inner op : String} (binds : BindsLeft inner op) :
    tightness op ≤ tightness inner ∧ tightness op < rightTightness inner := by
  unfold BindsLeft at binds
  unfold rightTightness
  have most := tightness_le inner
  split at binds
  · next power =>
    subst power
    have : tightness "**" = 8 := rfl
    omega
  · next other =>
    have := tightness_lt other
    have : tightness "**" = 8 := rfl
    split
    · next power => subst power; omega
    · omega

/-- An operation on the right of an operator that binds as it has to is read with it. -/
theorem rightTightness_le {inner op : String} (binds : BindsRight inner op) :
    rightTightness op ≤ tightness inner := by
  unfold BindsRight at binds
  unfold rightTightness
  split at binds <;> split <;> omega

theorem regroups_name {name : String} (free : name ∉ ["true", "false", "not"]) :
    (Node.name name line).Regroups site := by
  refine .of_single fun tokens rest _ shown follows => ?_
  replace shown : Shows [.ident name] tokens rest := shown
  obtain _ | ⟨kind, _ | _⟩ := shown
  have other : name ≠ "not" := by
    rintro rfl
    exact free (by decide)
  refine gives_readUnary_primary (by simp [kind]) (by simp [kind, Kind.unarySpelling?, other]) ?_
  rw [readPrimary, kind]
  exact gives_readName free follows

theorem regroups_number (value : Binary64) (unit : String) :
    (Node.measure value (unitOf unit) line).Regroups site := by
  refine .of_single fun tokens rest _ shown _ => ?_
  replace shown : Shows [.number value ((unitOf unit).getD "")] tokens rest := shown
  rw [getD_unitOf] at shown
  obtain _ | ⟨kind, _ | _⟩ := shown
  refine gives_readUnary_primary (by simp [kind]) (by simp [kind, Kind.unarySpelling?]) ?_
  rw [readPrimary, kind]
  exact ⟨_, rfl, rfl, rfl⟩

theorem regroups_string (value : String) (quote : Char) :
    (Node.literal ⟨value, some quote, line⟩).Regroups site := by
  refine .of_single fun tokens rest _ shown _ => ?_
  replace shown : Shows [.string value quote] tokens rest := shown
  obtain _ | ⟨kind, _ | _⟩ := shown
  refine gives_readUnary_primary (by simp [kind]) (by simp [kind, Kind.unarySpelling?]) ?_
  rw [readPrimary, kind]
  exact ⟨_, rfl, rfl, rfl⟩

theorem Node.Regroups.unary {op : String} {operand : Node} (sign : op ∈ ["!", "not", "-", "+"])
    (single : operand.operation? = none) (h : operand.Regroups site) :
    (Node.unary op operand line).Regroups site := by
  refine .of_single fun tokens rest unmarked shown follows => ?_
  rw [Node.kinds_unary] at shown
  obtain ⟨middle, signed, shownOperand⟩ := shown.split
  obtain ⟨kind, kinds, spelled, -⟩ := sign_kind sign
  rw [kinds] at signed
  obtain _ | ⟨rfl, _ | _⟩ := signed
  refine gives_readUnary_sign (unmarked _ List.suffix_rfl) spelled ?_
  exact h.single single _ _ (unmarked.suffix (List.suffix_cons _ _)) shownOperand follows

theorem Node.Regroups.parenthesized {kind : Kind} {kinds : List Kind} (h : node.Regroups site)
    (first : node.kinds = kind :: kinds) (solid : kind.endsSequence = false) :
    (Node.expression ⟨[node], false, true, line⟩).Regroups site := by
  have same : (Node.expression ⟨[node], false, true, line⟩).onLine site.line =
      .expression ⟨[node.onLine site.line], false, true, site.line⟩ := rfl
  refine .of_single fun tokens rest unmarked shown _ => ?_
  rw [Node.kinds_parenthesized] at shown
  obtain _ | ⟨opens, shown⟩ := shown
  obtain ⟨middle, inner, closing⟩ := shown.split
  obtain _ | @⟨_, _, closeToken, _, _, closes, _ | _⟩ := closing
  have ended : ∀ next ∈ (closeToken :: rest).head?, next.kind = .rightParen := by
    rintro next ⟨⟩
    exact closes
  obtain ⟨followsInner, below⟩ := closed_of_ended ended
  have whole := h.binary (unmarked.suffix (List.suffix_cons _ _)) inner followsInner (below 0)
    fun _ _ => Nat.zero_le _
  rw [first] at inner
  obtain _ | ⟨rfl, _⟩ := inner
  refine gives_readUnary_primary (by simp [opens]) (by simp [opens, Kind.unarySpelling?]) ?_
  rw [readPrimary, opens]
  refine (gives_readList solid whole ended).bind ?_
  intro taken value left
  obtain ⟨closing, read, left'⟩ : ∃ closing, readClosing site taken.rest = .ok closing ∧
      closing.rest = rest := by
    rw [left]
    obtain ⟨_, span⟩ := closeToken
    cases closes
    exact ⟨_, rfl, rfl⟩
  rw [read, same]
  exact ⟨_, rfl, by simp [Taken.andThen, Taken.loose, value, Expression.inParentheses,
    Expression.sequence], left'⟩

theorem Node.Regroups.operation {op : String} {left right : Node} (known : tightness op ≠ 0)
    (bindsLeft : ∀ inner ∈ left.operation?, BindsLeft inner op)
    (bindsRight : ∀ inner ∈ right.operation?, BindsRight inner op)
    (apart : op = "is" → right.kinds.head? ≠ some (.ident "not")) (some : right.kinds ≠ [])
    (hl : left.Regroups site) (hr : right.Regroups site) :
    (Node.binary op left right line).Regroups site := by
  refine ⟨nofun, fun tokens rest least unmarked shown closed tight => ?_⟩
  rw [Node.kinds_binary] at shown
  obtain ⟨middle, shownLeft, shownBehind⟩ := shown.split
  obtain ⟨behind, spelled, shownRight⟩ := shownBehind.split
  have unmarked' := (unmarked.suffix shownLeft.suffix).suffix spelled.suffix
  have apart' (is : op = "is") : ∀ next ∈ behind.head?, next.kind ≠ .ident "not" := by
    intro next here word
    refine apart is ?_
    rw [← shownRight.head some, here, ← word]
    rfl
  obtain ⟨other, read, found, value, left'⟩ := operator?_of_shows known spelled apart'
  have right' : Gives (readBinary site (rightTightness op) behind) (right.onLine site.line) rest :=
    hr.binary unmarked' shownRight closed.1 (closed.2 op rfl) fun inner bare =>
      rightTightness_le (bindsRight inner bare)
  have leftClosed : left.Closed middle := by
    refine ⟨other, fun inner bare next found' => ?_⟩
    rw [found] at found'
    cases found'
    rw [value]
    exact (lt_rightTightness (bindsLeft inner bare)).2
  have leftTight : ∀ inner ∈ left.operation?, least ≤ tightness inner := fun inner bare =>
    Nat.le_trans (tight op rfl) (lt_rightTightness (bindsLeft inner bare)).1
  obtain ⟨first, middle', hf, climb⟩ :=
    hl.climbs _ _ least unmarked shownLeft leftClosed leftTight
  refine ⟨first, middle', hf, fun whole after ho => climb whole after ?_⟩
  have least_right : read.value.rightPrecedence = rightTightness op := by
    rw [value]
    simp [Operator.rightPrecedence, rightTightness]
  rw [← least_right, ← left'] at right'
  refine gives_readOperators_step found ?_ right' ?_
  · rw [value]
    exact tight op rfl
  · rw [value]
    exact ho

/-- Every tree that can be written down is read back. -/
theorem Node.Writable.regroups (h : node.Writable) : node.Regroups site := by
  induction h with
  | name free => exact regroups_name free
  | number value unit => exact regroups_number value unit
  | string value quote => exact regroups_string value quote
  | unary sign single _ ih => exact ih.unary sign single
  | binary known bindsLeft bindsRight apart _ hr ihl ihr =>
    obtain ⟨kind, kinds, first, -⟩ := hr.kinds_head
    exact ihl.operation known bindsLeft bindsRight apart (first ▸ List.cons_ne_nil _ _) ihr
  | parenthesized h ih =>
    obtain ⟨kind, kinds, first, solid⟩ := h.kinds_head
    exact ih.parenthesized first solid

/-- One operand takes all of the tokens. -/
theorem Expression.ofTokens_of_readBinary {token : Token} (solid : token.kind.endsSequence = false)
    (ended : ValueSite.ofTokens (token :: tokens) line = site)
    (read : Gives (readBinary site 0 (token :: tokens)) node []) :
    ofTokens (token :: tokens) line = .ok (.sequence [node] line) := by
  obtain ⟨list, read, value, left⟩ := gives_readList solid read nofun
  rw [ofTokens, ended, read]
  simp only [ok_bind, left, value, ← ended, ValueSite.line_ofTokens]
  rfl

/-- The tokens that a tree of operators says are read as that tree, if the mark `!important` is not
among them. -/
theorem Expression.ofTokens_of_unmarked (h : node.Writable)
    (kinds : tokens.map (·.kind) = node.kinds) (unmarked : Unmarked tokens) (line : Nat) :
    Expression.ofTokens tokens line = .ok (.sequence [node.onLine line] line) := by
  have shown : Shows node.kinds tokens [] := kinds ▸ shows_map tokens
  obtain ⟨kind, more, first, solid⟩ := h.kinds_head
  have regroups : node.Regroups (.ofTokens tokens line) := h.regroups
  have ended : ∀ next ∈ ([] : List Token).head?, next.kind = .rightParen := nofun
  obtain ⟨follows, below⟩ := closed_of_ended ended
  have whole := regroups.binary unmarked shown follows (below 0) fun _ _ => Nat.zero_le _
  rw [ValueSite.line_ofTokens] at whole
  rw [first] at shown
  obtain _ | ⟨rfl, _⟩ := shown
  exact ofTokens_of_readBinary solid rfl whole

end

/-- The tokens that a tree of operators says are read as that tree, and as nothing else. -/
theorem Expression.ofTokens_written {line : Nat} {node : Node} (h : node.Written line)
    {tokens : List Token} (kinds : tokens.map (·.kind) = node.kinds) :
    Expression.ofTokens tokens line = .ok (.sequence [node] line) := by
  have unmarked : Unmarked tokens := unmarked_of_ne fun token ht bang =>
    h.bang_not_mem (kinds ▸ bang ▸ List.mem_map_of_mem ht)
  obtain ⟨writable, same⟩ := h.writable
  have read := ofTokens_of_unmarked writable kinds unmarked line
  rwa [same] at read

/-- Every tree of operators that can be written down is read back: tokens of the kinds that it says,
no two of which touch, are read as one sequence that holds this tree alone, with all nodes on the
line that is asked for. -/
theorem Expression.ofTokens_writable {node : Node} (h : node.Writable) {tokens : List Token}
    (kinds : tokens.map (·.kind) = node.kinds)
    (apart : tokens.IsChain fun token next => token.touches next = false) (line : Nat) :
    Expression.ofTokens tokens line = .ok (.sequence [node.onLine line] line) :=
  ofTokens_of_unmarked h kinds (unmarked_of_apart apart) line

/-- Operators of five levels, of which one groups to the right and one is two words, behind and in
front of signs, parentheses, and a word that is a mark where it touches the sign. -/
theorem writable_levels : ∃ (node : Node) (tokens : List Token),
    tokenize "a is not - b ** \"c\" ** ( not 1px ) or ! important" =
      .ok (tokens ++ [⟨.endOfInput, ⟨49, 49, 1, 50⟩⟩]) ∧
    node.Writable ∧ tokens.map (·.kind) = node.kinds ∧
    (tokens.IsChain fun token next => token.touches next = false) ∧
    Expression.ofTokens tokens 7 = .ok (.sequence [node.onLine 7] 7) := by
  have power : (Node.binary "**" (.unary "-" (.name "b" 1) 2) (.binary "**" (.literal ⟨"c", '"', 3⟩)
      (.expression ⟨[.unary "not" (.measure (.ofInt 1) (unitOf "px") 4) 5], false, true, 6⟩) 7)
      8).Writable := by
    refine .binary (by decide) nofun ?_ nofun (.unary (by decide) rfl (.name (by decide))) ?_
    · rintro inner ⟨⟩
      exact (if_pos rfl).mpr (Nat.le_refl _)
    · exact .binary (by decide) nofun nofun nofun (.string _ _ _)
        (.parenthesized (.unary (by decide) rfl (.number _ _ _)))
  have equality := @Node.Writable.binary "is not" _ _ 9 (by decide) (by nofun)
    (by rintro inner ⟨⟩; exact (if_neg (by decide)).mpr (by decide)) (by nofun)
    (@Node.Writable.name "a" 10 (by decide)) power
  have whole := @Node.Writable.binary "or" _ _ 11 (by decide)
    (by rintro inner ⟨⟩; exact (if_neg (by decide)).mpr (by decide)) (by nofun) (by nofun) equality
    (@Node.Writable.unary "!" _ 12 (by decide) rfl (@Node.Writable.name "important" 13 (by decide)))
  refine ⟨_, [⟨.ident "a", ⟨0, 1, 1, 1⟩⟩, ⟨.ident "is", ⟨2, 4, 1, 3⟩⟩, ⟨.ident "not", ⟨5, 8, 1, 6⟩⟩,
    ⟨.minus, ⟨9, 10, 1, 10⟩⟩, ⟨.ident "b", ⟨11, 12, 1, 12⟩⟩, ⟨.starStar, ⟨13, 15, 1, 14⟩⟩,
    ⟨.string "c" '"', ⟨16, 19, 1, 17⟩⟩, ⟨.starStar, ⟨20, 22, 1, 21⟩⟩,
    ⟨.leftParen, ⟨23, 24, 1, 24⟩⟩, ⟨.ident "not", ⟨25, 28, 1, 26⟩⟩,
    ⟨.number (.ofInt 1) "px", ⟨29, 32, 1, 30⟩⟩, ⟨.rightParen, ⟨33, 34, 1, 34⟩⟩,
    ⟨.ident "or", ⟨35, 37, 1, 36⟩⟩, ⟨.bang, ⟨38, 39, 1, 39⟩⟩,
    ⟨.ident "important", ⟨40, 49, 1, 41⟩⟩], by decide +kernel, whole, by decide +kernel,
    by decide +kernel, ?_⟩
  exact Expression.ofTokens_writable whole (by decide +kernel) (by decide +kernel) 7

end StylusToScss
