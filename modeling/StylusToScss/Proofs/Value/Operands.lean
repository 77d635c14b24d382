import StylusToScss.Proofs.Token.Levels
import StylusToScss.Proofs.Value.Prolonged

/-!
# Values as operands

Tokens that are read as one node are an operand. With an operator behind them and another operand
behind that, they are read as the operation on both (`Expression.ofTokens_operation`), if the
operations that the operands are may stand bare on the sides of the operator. Up to the operator the
readers take what they take from the operand alone; the loop over the operators comes to its end
with the operand in hand, and goes on (`Chains.gives_prolonged`).

* `Expression.ofTokens_signed`: an operand that is no operation, with a sign in front of it.
* `Expression.balances_ofTokens`: no parenthesis is open behind the tokens of a value.
-/

namespace StylusToScss

variable {site : ValueSite} {endLine endColumn : Nat} {rest tokens tokens' : List Token}
  {token : Token}

/-! ## Operations -/

/-- The run of the loop over operators, from an operand in hand before some tokens to the whole
operand before what is left of them. -/
inductive Chains (site : ValueSite) (least : Nat) :
    Node → List Token → Node → List Token → Prop
  | done {left : Node} {tokens : List Token} (below : Below least tokens) :
      Chains site least left tokens left tokens
  | step {left right whole : Node} {tokens middle rest : List Token} {op : Taken 1 Operator tokens}
      (found : operator? tokens = some op) (tight : least ≤ op.value.precedence)
      (read : Gives (readBinary site op.value.rightPrecedence op.rest) right middle)
      (more : Chains site least (.binary op.value.spelling left right site.line) middle whole
        rest) :
      Chains site least left tokens whole rest

theorem chains_of_gives {least : Nat} {left whole : Node} {tokens rest : List Token}
    (read : Gives (readOperators site least left tokens) whole rest) :
    Chains site least left tokens whole rest := by
  obtain ⟨taken, read, rfl, rfl⟩ := read
  rw [readOperators] at read
  split at read
  · next none =>
    cases read
    refine .done fun op found => ?_
    rw [none] at found
    cases found
  · next op found =>
    split at read
    · next loose =>
      cases read
      refine .done fun op' found' => ?_
      rw [found] at found'
      cases found'
      exact loose
    · next tight =>
      obtain ⟨right, readRight, read⟩ := bind_eq_ok_iff.1 read
      obtain ⟨whole, readWhole, same⟩ := bind_eq_ok_iff.1 read
      cases same
      have := op.rest_lt
      have := right.rest_lt
      exact .step found (Nat.not_lt.1 tight) ⟨right, readRight, rfl, rfl⟩
        (chains_of_gives ⟨whole, readWhole, rfl, rfl⟩)
termination_by tokens.length

theorem chains_of_readBinary {least : Nat} {node : Node}
    (read : Gives (readBinary site least tokens) node rest) :
    ∃ first middle, Gives (readUnary site tokens) first middle ∧
      Chains site least first middle node rest := by
  obtain ⟨taken, read, rfl, rfl⟩ := read
  rw [readBinary] at read
  obtain ⟨first, readFirst, read⟩ := bind_eq_ok_iff.1 read
  obtain ⟨whole, readWhole, same⟩ := bind_eq_ok_iff.1 read
  cases same
  exact ⟨_, _, ⟨first, readFirst, rfl, rfl⟩, chains_of_gives ⟨whole, readWhole, rfl, rfl⟩⟩

section
variable {least least' : Nat} {left node whole : Node} {after : List Token}

/-- No operator of the least precedence follows what has been read. -/
theorem Chains.endsBelow (h : Chains site least left tokens node rest) : Below least rest := by
  induction h with
  | done below => exact below
  | step _ _ _ _ ih => exact ih

theorem Operator.Known.rightPrecedence_eq {op : Operator} (known : op.Known) :
    op.rightPrecedence = rightTightness op.spelling := by
  unfold rightPrecedence rightTightness
  simp only [known.groups, known.binds]

/-- No operator that binds more tightly follows an operator's right operand. -/
theorem below_rightTightness {op : Taken 1 Operator tokens} (found : operator? tokens = some op)
    (read : Gives (readBinary site op.value.rightPrecedence op.rest) node rest) :
    Below (rightTightness op.value.spelling) rest := by
  obtain ⟨first, middle, -, chain⟩ := chains_of_readBinary read
  rw [← (operator?_spec found).1.rightPrecedence_eq]
  exact chain.endsBelow

/-- Where no tighter operator follows an operation, the loop ends with an operation that binds at
most as tightly. -/
theorem Chains.exists_operation {inner : String} (h : Chains site least left tokens node rest)
    (operation : left.operation? = some inner) (below : Below (rightTightness inner) tokens) :
    ∃ outer, node.operation? = some outer ∧ tightness outer ≤ tightness inner := by
  induction h generalizing inner with
  | done => exact ⟨inner, operation, Nat.le_refl _⟩
  | @step left right whole tokens middle rest op found _ read _ ih =>
    obtain ⟨outer, some, le⟩ := ih rfl (below_rightTightness found read)
    refine ⟨outer, some, Nat.le_trans le ?_⟩
    have less := below op found
    rw [(operator?_spec found).1.binds] at less
    unfold rightTightness at less
    split at less <;> omega

/-- The loop over the operators of an operand that ends with the tokens goes on behind it with the
operand in hand. -/
theorem Chains.gives_prolonged {ended : List Token}
    (h : Chains site least' left tokens node ended) (none : ended = [])
    (prolongs : Prolongs rest tokens tokens') (tight : ∀ op ∈ node.operation?, least ≤ tightness op)
    (closed : ∀ op ∈ node.operation?, Below (rightTightness op) rest)
    (next : Gives (readOperators (site.ending endLine endColumn) least node rest) whole after) :
    Gives (readOperators (site.ending endLine endColumn) least left tokens') whole after := by
  induction h generalizing tokens' with
  | done => rwa [prolongs.eq_nil none]
  | @step left right node tokens middle ended op found _ read more ih =>
    obtain ⟨outer, some, le⟩ := more.exists_operation rfl (below_rightTightness found read)
    have endsBelow : EndsBelow rest op.value.rightPrecedence middle := by
      rintro rfl
      rw [(operator?_spec found).1.rightPrecedence_eq]
      cases more with
      | done => exact closed _ rfl
      | step found' => cases found'
    cases prolongs with
    | nil => cases found
    | @cons token token' tokens tokens' same touching plain behind =>
      have marks := operator?_prolonged (.cons same touching plain behind)
      rw [found] at marks
      cases found' : operator? (token' :: tokens') with
      | none =>
        rw [found'] at marks
        cases marks
      | some op' =>
        rw [found'] at marks
        obtain ⟨value, behind⟩ := marks
        obtain ⟨taken, readRight, rfl, rfl⟩ := read
        obtain ⟨taken', readRight', value', behind'⟩ :=
          prolonged_readBinary _ op.rest behind taken readRight endsBelow
        refine gives_readOperators_step found' ?_ ⟨taken', value ▸ readRight', value', rfl⟩ ?_
        · rw [value, (operator?_spec found).1.binds]
          exact Nat.le_trans (tight outer some) le
        · rw [value]
          exact ih none behind' tight closed next

/-- An operand that ends with the tokens, of any tightness that its operation has, is in hand before
what stands behind it. -/
theorem gives_readBinary_prolonged (read : Gives (readBinary site least' tokens) node [])
    (h : Prolongs rest tokens tokens') (tight : ∀ op ∈ node.operation?, least ≤ tightness op)
    (closed : ∀ op ∈ node.operation?, Below (rightTightness op) rest)
    (next : Gives (readOperators (site.ending endLine endColumn) least node rest) whole after) :
    Gives (readBinary (site.ending endLine endColumn) least tokens') whole after := by
  obtain ⟨_, _, ⟨first, readFirst, rfl, rfl⟩, chain⟩ := chains_of_readBinary read
  obtain ⟨first', readFirst', value, behind⟩ := prolonged_readUnary tokens h first readFirst trivial
  exact gives_readBinary ⟨first', readFirst', value, rfl⟩
    (chain.gives_prolonged rfl behind tight closed next)

end

/-! ## Whole values -/

theorem ValueSite.ofTokens_eq_ending (tokens tokens' : List Token) (line : Nat) :
    ∃ endLine endColumn, ofTokens tokens' line = (ofTokens tokens line).ending endLine endColumn :=
  ⟨(ofTokens tokens' line).endLine, (ofTokens tokens' line).endColumn, congrArg (mk · _ _)
    ((line_ofTokens tokens' line).trans (line_ofTokens tokens line).symm)⟩

theorem below_nil (least : Nat) : Below least [] := by
  rintro _ ⟨⟩

/-- Nothing is left behind the operands of a sequence if there is only one of them. -/
theorem readOperands_nil {left : List Token}
    (read : Gives (readOperands site tokens) [] left) : left = tokens := by
  obtain ⟨taken, read, value, rfl⟩ := read
  rw [readOperands.eq_def] at read
  split at read
  · cases read
    rfl
  · split at read
    · cases read
      rfl
    · obtain ⟨first, -, read⟩ := bind_eq_ok_iff.1 read
      obtain ⟨more, -, same⟩ := bind_eq_ok_iff.1 read
      cases same
      cases value

theorem readFurther_nil {left : List Token}
    (read : Gives (readFurther site tokens) [] left) : left = tokens := by
  obtain ⟨taken, read, value, rfl⟩ := read
  rw [readFurther.eq_def] at read
  split at read
  · obtain ⟨first, -, read⟩ := bind_eq_ok_iff.1 read
    obtain ⟨more, -, same⟩ := bind_eq_ok_iff.1 read
    cases same
    cases value
  · cases read
    rfl

section
variable {line : Nat} {node left right : Node} {op : String} {mark : Token}

/-- Tokens that are read as one node alone are an operand. -/
theorem Expression.readBinary_of_ofTokens
    (read : ofTokens tokens line = .ok (.sequence [node] line)) : ∃ token more,
      tokens = token :: more ∧ token.kind.endsSequence = false ∧
        Gives (readBinary (.ofTokens tokens line) 0 tokens) node [] := by
  unfold ofTokens at read
  obtain ⟨list, hl, read⟩ := bind_eq_ok_iff.1 read
  split at read
  · next ended =>
    have value : list.value = .sequence [node] line := Except.ok.inj read
    rw [readList] at hl
    obtain ⟨e, he, hl⟩ := bind_eq_ok_iff.1 hl
    obtain ⟨further, hf, same⟩ := bind_eq_ok_iff.1 hl
    cases same
    have none : further.value = [] := by
      cases here : further.value with
      | nil => rfl
      | cons first more =>
        have isList : (ofSequences e.value further.value _).isList = false :=
          congrArg (·.isList) value
        rw [here] at isList
        cases isList
    have alone := readFurther_nil ⟨further, hf, none, rfl⟩
    cases tokens with
    | nil =>
      rw [readSequence] at he
      cases he
    | cons token more =>
      rw [readSequence] at he
      split at he
      · cases he
      · next solid =>
        refine ⟨token, more, rfl, Bool.eq_false_iff.2 solid, ?_⟩
        obtain ⟨first, hn, he⟩ := bind_eq_ok_iff.1 he
        obtain ⟨operands, ho, same⟩ := bind_eq_ok_iff.1 he
        cases same
        have nodes : (ofSequences (.sequence (first.value :: operands.value) _) further.value
            _).nodes = [node] := congrArg (·.nodes) value
        rw [none] at nodes
        obtain ⟨rfl, noMore⟩ := List.cons.inj nodes
        have all := readOperands_nil ⟨operands, ho, noMore, rfl⟩
        refine ⟨first, hn, rfl, ?_⟩
        rw [← all]
        exact alone.symm.trans ended
  · cases read

/-- An operation of two operands is read from their tokens with the operator between them. -/
theorem Expression.ofTokens_operation {tokensL tokensR tokensR' : List Token}
    (readL : ofTokens tokensL line = .ok (.sequence [left] line))
    (readR : ofTokens tokensR line = .ok (.sequence [right] line))
    (known : op ∈ writtenOperators) (kinds : operatorKinds op = [mark.kind])
    (bindsLeft : ∀ inner ∈ left.operation?, BindsLeft inner op)
    (bindsRight : ∀ inner ∈ right.operation?, BindsRight inner op)
    (prolongsL : Prolongs (mark :: tokensR') tokensL tokens')
    (prolongsR : Prolongs [] tokensR tokensR') :
    ofTokens tokens' line = .ok (.sequence [.binary op left right line] line) := by
  obtain ⟨token, more, rfl, solid, operandL⟩ := readBinary_of_ofTokens readL
  obtain ⟨-, -, -, -, operandR⟩ := readBinary_of_ofTokens readR
  have tight : tightness op ≠ 0 := by
    have all : ∀ op ∈ writtenOperators, tightness op ≠ 0 := by decide
    exact all op known
  have shown : Shows (operatorKinds op) (mark :: tokensR') tokensR' := by
    rw [kinds]
    exact .cons rfl .nil
  have apart : op = "is" → ∀ next ∈ tokensR'.head?, next.kind ≠ .ident "not" := by
    rintro rfl
    exact absurd known (by decide)
  obtain ⟨-, found, operator, value, behind⟩ := operator?_of_shows tight shown apart
  obtain _ | @⟨_, token', _, more', same, touching, plain, behindL⟩ := prolongsL
  obtain ⟨_, _, site⟩ := ValueSite.ofTokens_eq_ending (token :: more) (token' :: more') line
  obtain ⟨_, _, site'⟩ := ValueSite.ofTokens_eq_ending tokensR (token' :: more') line
  have operandR' : Gives
      (readBinary (.ofTokens (token' :: more') line) (rightTightness op) tokensR') right [] := by
    rw [site']
    exact gives_readBinary_prolonged operandR prolongsR
      (fun inner bare => rightTightness_le (bindsRight inner bare))
      (fun _ _ => below_nil _) (gives_readOperators_done (below_nil _))
  have next : Gives (readOperators (.ofTokens (token' :: more') line) 0 left (mark :: tokensR'))
      (.binary op left right line) [] := by
    have precedence : found.value.rightPrecedence = rightTightness op := by
      rw [value]
      simp [Operator.rightPrecedence, rightTightness]
    rw [← behind, ← precedence] at operandR'
    refine gives_readOperators_step operator (Nat.zero_le _) operandR' ?_
    rw [value, ValueSite.line_ofTokens]
    exact gives_readOperators_done (below_nil _)
  refine ofTokens_of_readBinary (same ▸ solid) rfl ?_
  rw [site] at next ⊢
  refine gives_readBinary_prolonged operandL (.cons same touching plain behindL)
    (fun _ _ => Nat.zero_le _) (fun inner bare next found' => ?_) next
  rw [operator] at found'
  cases found'
  rw [value]
  exact (lt_rightTightness (bindsLeft inner bare)).2

/-- An operand that is no operation is read with a sign in front of it. -/
theorem Expression.ofTokens_signed (read : ofTokens tokens line = .ok (.sequence [node] line))
    (single : node.operation? = none) (sign : op ∈ writtenSigns)
    (kinds : operatorKinds op = [mark.kind]) (prolongs : Prolongs [] tokens tokens') :
    ofTokens (mark :: tokens') line = .ok (.sequence [.unary op node line] line) := by
  obtain ⟨-, -, -, -, operand⟩ := readBinary_of_ofTokens read
  obtain ⟨first, middle, whole, chain⟩ := chains_of_readBinary operand
  obtain ⟨rfl, rfl⟩ : first = node ∧ middle = [] := by
    cases chain with
    | done => exact ⟨rfl, rfl⟩
    | step found _ right more =>
      obtain ⟨outer, operation, -⟩ := more.exists_operation rfl (below_rightTightness found right)
      rw [single] at operation
      cases operation
  obtain ⟨taken, readTaken, rfl, ended⟩ := whole
  obtain ⟨_, _, site⟩ := ValueSite.ofTokens_eq_ending tokens (mark :: tokens') line
  obtain ⟨taken', readTaken', value, behind⟩ :=
    prolonged_readUnary tokens prolongs taken readTaken trivial
  rw [← site] at readTaken'
  have unary : Gives (readUnary (.ofTokens (mark :: tokens') line) tokens') taken.value [] :=
    ⟨taken', readTaken', value, behind.eq_nil ended⟩
  obtain ⟨kind, kinds', spelled, solid⟩ := sign_kind (List.mem_cons_of_mem _ sign)
  obtain rfl : kind = mark.kind := by
    rw [kinds'] at kinds
    exact List.singleton_inj.1 kinds
  have plain : mark.kind ≠ .bang := by
    intro bang
    rw [bang] at spelled
    cases spelled
    exact absurd sign (by decide)
  have signed := gives_readUnary_sign (important?_eq_none plain tokens') spelled unary
  rw [ValueSite.line_ofTokens] at signed
  exact ofTokens_of_readBinary solid rfl
    (gives_readBinary signed (gives_readOperators_done (below_nil _)))

end

/-! ## The tokens of a value -/

/-- The kinds close the parentheses that they open, and none of them ends a line. -/
structure Balances (kinds : List Kind) : Prop where
  parens : ∀ n, kinds.foldl Scan.parensAfter n = n
  content : ∀ kind ∈ kinds, kind.endsLine = false

namespace Balances

variable {a b kinds : List Kind}

theorem nil : Balances [] := ⟨fun _ => rfl, nofun⟩

theorem append (ha : Balances a) (hb : Balances b) : Balances (a ++ b) where
  parens n := by rw [List.foldl_append, ha.parens, hb.parens]
  content kind mem := (List.mem_append.1 mem).elim (ha.content kind) (hb.content kind)

theorem enclose (h : Balances kinds) : Balances (.leftParen :: (kinds ++ [.rightParen])) where
  parens n := by
    rw [List.foldl_cons, List.foldl_append, h.parens]
    rfl
  content := by
    intro kind mem
    simp only [List.mem_cons, List.mem_append, List.not_mem_nil, or_false] at mem
    rcases mem with rfl | mem | rfl
    · rfl
    · exact h.content kind mem
    · rfl

theorem cons {kind : Kind} (h : Balances kinds) (content : kind.endsLine = false)
    (plain : ∀ n, Scan.parensAfter n kind = n) : Balances (kind :: kinds) where
  parens n := by rw [List.foldl_cons, plain, h.parens]
  content := List.forall_mem_cons.2 ⟨content, h.content⟩

end Balances

theorem balances_operatorKinds (op : String) : Balances (operatorKinds op) := by
  unfold operatorKinds
  split
  case h_18 => exact .cons (.cons .nil rfl fun _ => rfl) rfl fun _ => rfl
  all_goals exact .cons .nil rfl fun _ => rfl

theorem balances_plainKinds (text : String) : Balances (plainKinds text) := by
  unfold plainKinds
  split
  · exact .cons (.cons .nil rfl fun _ => rfl) rfl fun _ => rfl
  · exact .cons .nil rfl fun _ => rfl
  · exact .cons .nil rfl fun _ => rfl

/-- The kinds that leaves have. -/
abbrev kindsOf (leaves : List Leaf) : List Kind := leaves.map (·.kind)

mutual

theorem Node.balances : ∀ node : Node, Balances (kindsOf node.leaves)
  | .ident name _ true _ => .cons .nil rfl fun _ => rfl
  | .ident name _ false _ => .cons .nil rfl fun _ => rfl
  | .binding name value _ _ _ => .cons (.cons value.balances rfl fun _ => rfl) rfl fun _ => rfl
  | .expression ⟨nodes, isList, parenthesized, _⟩ => by
    rw [Node.leaves, Expression.leaves]
    have inner := balances_listLeaves isList nodes
    cases parenthesized with
    | false => exact inner
    | true =>
      rw [if_pos rfl, kindsOf, List.map_cons, List.map_append]
      exact inner.enclose
  | .call name ⟨nodes, _⟩ _ => by
    rw [Node.leaves, kindsOf, List.map_cons, List.map_cons, List.map_append]
    exact (balances_listLeaves true nodes).enclose.cons rfl fun _ => rfl
  | .binary op left right _ => by
    rw [Node.leaves, kindsOf, List.map_append, List.map_append, kinds_plainLeaves]
    exact left.balances.append ((balances_operatorKinds op).append right.balances)
  | .unary op operand _ => by
    rw [Node.leaves, kindsOf, List.map_append, kinds_plainLeaves]
    exact (balances_operatorKinds op).append operand.balances
  | .literal ⟨value, some quote, _⟩ => .cons .nil rfl fun _ => rfl
  | .literal ⟨value, none, _⟩ => by
    rw [Node.leaves, kindsOf, kinds_plainLeaves]
    exact balances_plainKinds value
  | .measure _ _ _ => .cons .nil rfl fun _ => rfl
  | .boolean _ _ => .cons .nil rfl fun _ => rfl
  | .color raw _ => by
    rw [Node.leaves, kindsOf, kinds_plainLeaves]
    exact balances_plainKinds raw
  | .arguments _ | .params _ | .unsupported _ _ | .importRule _ _ | .group _ _ | .selector _
  | .block _ | .property _ _ _ | .conditional _ _ _ _ | .loop _ _ _ _ _ | .definition _ _ _ _ =>
    .nil

theorem balances_listLeaves (commas : Bool) : ∀ nodes : List Node,
    Balances (kindsOf (listLeaves commas nodes))
  | [] => .nil
  | node :: rest => by
    rw [listLeaves, kindsOf, List.map_append]
    exact node.balances.append (balances_furtherLeaves commas rest)

theorem balances_furtherLeaves (commas : Bool) : ∀ nodes : List Node,
    Balances (kindsOf (furtherLeaves commas nodes))
  | [] => .nil
  | node :: rest => by
    rw [furtherLeaves, kindsOf, List.map_append, List.map_append]
    refine .append ?_ (node.balances.append (balances_furtherLeaves commas rest))
    cases commas with
    | false => exact .nil
    | true => exact .cons .nil rfl fun _ => rfl

end

theorem balances_merged {kinds : List Kind} (h : Balances (kinds.map Kind.merged)) :
    Balances kinds := by
  have same (n : Nat) (kind : Kind) : Scan.parensAfter n kind.merged = Scan.parensAfter n kind := by
    cases kind <;> rfl
  refine ⟨fun n => ?_, fun kind mem => ?_⟩
  · have parens := h.parens n
    rw [List.foldl_map] at parens
    simpa only [same] using parens
  · have content := h.content _ (List.mem_map_of_mem mem)
    cases kind <;> first | rfl | exact content

/-- The tokens of a value close the parentheses that they open, and none of them ends a line. -/
theorem Expression.balances_ofTokens {line : Nat} {e : Expression} (h : Addressed tokens)
    (read : ofTokens tokens line = .ok e) : Balances (tokens.map (·.kind)) := by
  obtain ⟨spells, -⟩ := (spells_ofTokens h line).of_eq_ok read
  have leaves : Balances (kindsOf e.leaves) := by
    rw [← Node.leaves_expression]
    exact (Node.expression e).balances
  have merged : tokens.map (·.kind.merged) = (tokens.map (·.kind)).map Kind.merged := by
    rw [List.map_map]
    rfl
  rw [kindsOf, spells.kinds, merged] at leaves
  exact balances_merged leaves

end StylusToScss
