import StylusToScss.Proofs.Scss.RoundTrip
import StylusToScss.Proofs.Token.Adjacent
import StylusToScss.Proofs.Value.Operands

/-!
# Looked-up values as operands

A lookup is written as the value of a property, and nothing is added to it. Next to an operator this
value is still one operand where its own operator binds tightly enough, and only there
(`Node.value_looked_up`).

The value may be any text that is read as a value (`Operand`), and so may the other operand. Where
both stand next to each other with an operator between them, the tokens of the text are those of
the three, and no parenthesis is open between them. So a value that is read as one operand can only
be a single node, as parentheses around it would be tokens of their own.
-/

namespace StylusToScss

open Lexeme

variable {line : Nat} {text textL textR : String} {e eL eR : Expression} {node : Node}
  {op : String} {tokens : List Token}

/-! ## Operands -/

/-- A value as one operand: a node that stands alone, and anything else in parentheses. -/
def Expression.operand : Expression → Node
  | ⟨[node], false, false, _⟩ => node
  | e => .expression e.inParentheses

/-- The value is one node, and the operator has the property if that is an operation. -/
def Expression.Bare (binds : String → Prop) : Expression → Prop
  | ⟨[node], false, false, _⟩ => ∀ inner ∈ node.operation?, binds inner
  | _ => False

/-- The text is cut into tokens that are read as this node alone. -/
def ReadsNode (line : Nat) (text : String) (node : Node) : Prop :=
  ∃ tokens last, tokenize text = .ok (tokens ++ [last]) ∧ last.kind = .endOfInput ∧
    Expression.ofTokens tokens line = .ok (.sequence [node] line)

/-- No name is given a value among the tokens. -/
def Unassigned (tokens : List Token) : Prop :=
  ∀ token ∈ tokens, token.kind ∉ [.assign, .conditionalAssign]

/-- The tokens of the text are read as this value. Nothing stands around them, and none of them
gives a name a value. -/
structure OperandOf (line : Nat) (text : String) (e : Expression) (tokens : List Token) : Prop where
  cut : ∃ last, tokenize text = .ok (tokens ++ [last]) ∧ last.kind = .endOfInput
  fills : Fills tokens text.toList
  unassigned : Unassigned tokens
  read : Expression.ofTokens tokens line = .ok e

/-- The text is read as this value, from its first character to its last one. -/
def Operand (line : Nat) (text : String) (e : Expression) : Prop :=
  ∃ tokens, OperandOf line text e tokens

namespace Expression

theorem plain_ofTokens (read : ofTokens tokens line = .ok e) :
    tokens ≠ [] ∧ e.parenthesized = false ∧ e.line = line := by
  unfold ofTokens at read
  obtain ⟨list, readList', read⟩ := bind_eq_ok_iff.1 read
  split at read
  · cases read
    rw [readList] at readList'
    obtain ⟨first, readFirst, readList'⟩ := bind_eq_ok_iff.1 readList'
    obtain ⟨more, -, same⟩ := bind_eq_ok_iff.1 readList'
    cases same
    cases tokens with
    | nil =>
      rw [readSequence] at readFirst
      cases readFirst
    | cons token tokens =>
      refine ⟨List.cons_ne_nil _ _, ?_⟩
      rw [readSequence] at readFirst
      split at readFirst
      · cases readFirst
      · obtain ⟨node, -, readFirst⟩ := bind_eq_ok_iff.1 readFirst
        obtain ⟨nodes, -, same⟩ := bind_eq_ok_iff.1 readFirst
        cases same
        have number := ValueSite.line_ofTokens (token :: tokens) line
        show (ofSequences (.sequence _ _) more.value _).parenthesized = false ∧
          (ofSequences (.sequence _ _) more.value _).line = line
        unfold ofSequences
        split <;> exact ⟨rfl, number⟩
  · cases read

/-- A value without parentheses is a node alone, or it has to be enclosed. -/
theorem operand_cases (plain : e.parenthesized = false) :
    (∃ node, e = .sequence [node] e.line) ∨
      e.operand = .expression e.inParentheses ∧ ∀ binds, ¬ e.Bare binds := by
  obtain ⟨nodes, isList, _, line⟩ := e
  cases plain
  match nodes, isList with
  | [node], false => exact .inl ⟨node, rfl⟩
  | [], _ | _ :: _ :: _, _ | [_], true => exact .inr ⟨rfl, fun _ => id⟩

/-- As one operand a value has its own leaves, or two more for the parentheses. -/
theorem leaves_operand (plain : e.parenthesized = false) :
    e.operand.leaves = e.leaves ∧ (∃ node, e = .sequence [node] e.line) ∨
      e.operand.leaves = .plain .leftParen :: (e.leaves ++ [.plain .rightParen]) := by
  rcases operand_cases plain with ⟨node, same⟩ | ⟨enclosed, -⟩
  · refine .inl ⟨?_, node, same⟩
    rw [same]
    show node.leaves = node.leaves ++ furtherLeaves false []
    rw [furtherLeaves, List.append_nil]
  · obtain ⟨nodes, isList, _, line⟩ := e
    cases plain
    rw [enclosed]
    exact .inr rfl

end Expression

theorem addressed_of_tokenize {last : Token} (cut : tokenize text = .ok (tokens ++ [last])) :
    Addressed tokens :=
  addressed_of_isCut fun _ mem => ⟨_, _, cut, List.mem_append_left _ mem⟩

/-- The leaves of a node that is read alone are the kinds of the tokens, and its operations are
grouped as their operators bind. -/
theorem kinds_of_read {last : Token} (cut : tokenize text = .ok (tokens ++ [last]))
    (read : Expression.ofTokens tokens line = .ok (.sequence [node] line)) :
    node.leaves.map (·.kind) = tokens.map (·.kind.merged) ∧ node.IsGrouped := by
  obtain ⟨spells, -, grouped, -⟩ :=
    (spells_ofTokens (addressed_of_tokenize cut) line).of_eq_ok read
  have leaves : (Expression.sequence [node] line).leaves = node.leaves := List.append_nil _
  rw [← leaves]
  exact ⟨spells.kinds, grouped⟩

theorem stops_nil : Stops [] := by
  rintro _ ⟨⟩

/-- Tokens that have been moved, with others behind them. -/
theorem prolongs_moved {rest : List Token} (move : Move) (stops : Stops rest)
    (plain : Unassigned tokens) : Prolongs rest tokens (tokens.map (·.moved move) ++ rest) := by
  induction tokens with
  | nil => exact .nil stops
  | cons token tokens ih =>
    rw [Unassigned, List.forall_mem_cons] at plain
    refine .cons rfl ?_ plain.1 (ih plain.2)
    intro next here next' here'
    cases tokens with
    | nil => cases here
    | cons other tokens =>
      cases here
      cases here'
      exact Token.touches_moved token next

theorem prolongs_append {rest : List Token} (stops : Stops rest) (plain : Unassigned tokens) :
    Prolongs rest tokens (tokens ++ rest) := by
  have same : tokens.map (·.moved .none) = tokens := List.map_id tokens
  have moved := prolongs_moved .none stops plain
  rwa [same] at moved

/-- Behind tokens that close their parentheses none is open. -/
theorem Scan.Comes.closed {source : List Char} {scan : Scan} (comes : Scan.Comes source tokens scan)
    (h : Balances (tokens.map (·.kind))) : scan.parens = 0 := by
  have closed := h.parens 0
  rw [List.foldl_map] at closed
  exact (comes.flat fun _ mem => h.content _ (List.mem_map_of_mem mem)).2.trans closed

namespace OperandOf

theorem balances (h : OperandOf line text e tokens) : Balances (tokens.map (·.kind)) := by
  obtain ⟨last, cut, -⟩ := h.cut
  exact Expression.balances_ofTokens (addressed_of_tokenize cut) h.read

theorem content (h : OperandOf line text e tokens) : Content tokens :=
  fun _ mem => h.balances.content _ (List.mem_map_of_mem mem)

/-- The leaves of the value are the kinds of its tokens. -/
theorem kinds (h : OperandOf line text e tokens) :
    e.leaves.map (·.kind) = tokens.map (·.kind.merged) := by
  obtain ⟨last, cut, -⟩ := h.cut
  obtain ⟨spells, -⟩ := (spells_ofTokens (addressed_of_tokenize cut) line).of_eq_ok h.read
  exact spells.kinds

/-- The value has as many leaves as tokens, and is a node alone if it has no more as an operand. -/
theorem length_operand (h : OperandOf line text e tokens) :
    tokens.length ≤ e.operand.leaves.length ∧
      (e.operand.leaves.length = tokens.length → ∃ node, e = .sequence [node] line) := by
  have same : e.leaves.length = tokens.length := by
    have lengths := congrArg List.length h.kinds
    rwa [List.length_map, List.length_map] at lengths
  obtain ⟨-, plain, rfl⟩ := Expression.plain_ofTokens h.read
  rcases Expression.leaves_operand plain with ⟨leaves, single⟩ | leaves
  · rw [leaves, same]
    exact ⟨Nat.le_refl _, fun _ => single⟩
  · rw [leaves, List.length_cons, List.length_append, same, List.length_singleton]
    exact ⟨by omega, fun less => by omega⟩

theorem of_bare {binds : String → Prop} (h : OperandOf line text e tokens) (bare : e.Bare binds) :
    ∃ node, e = .sequence [node] line ∧ ∀ inner ∈ node.operation?, binds inner := by
  obtain ⟨-, plain, rfl⟩ := Expression.plain_ofTokens h.read
  rcases Expression.operand_cases plain with ⟨node, same⟩ | ⟨-, never⟩
  · rw [same] at bare
    exact ⟨node, same, bare⟩
  · exact absurd bare (never binds)

/-- Moved, the tokens are the same operand. -/
theorem prolongs (h : OperandOf line text e tokens) (move : Move) :
    Prolongs [] tokens (tokens.map (·.moved move)) := by
  have prolongs := prolongs_moved move stops_nil h.unassigned
  rwa [List.append_nil] at prolongs

/-- In front of a blank, an operand is cut into its tokens. -/
theorem comes (h : OperandOf line text e tokens) (rest : List Char) : ∃ previous scan,
    Scan.Comes (text.toList ++ ' ' :: rest) tokens scan ∧
      Scan.Inside previous (' ' :: rest) scan := by
  obtain ⟨last, cut, -⟩ := h.cut
  have content := h.content
  have stops := h.fills.stops
  obtain ⟨some, -⟩ := Expression.plain_ofTokens h.read
  obtain ⟨before, token, rfl⟩ : ∃ before token, tokens = before ++ [token] :=
    ⟨_, _, (List.dropLast_append_getLast some).symm⟩
  rw [← String.ofList_toList (s := text), List.append_assoc] at cut
  exact comes_before_blank cut content (stops token (by simp)) rest

/-- Behind other tokens of a line, an operand is cut into its tokens, moved. -/
theorem behind (h : OperandOf line text e tokens) {scan : Scan} {previous : Option Char}
    {source : List Char} {before : List Token} (comes : Scan.Comes source before scan)
    (inside : Scan.Inside previous text.toList scan) (closed : scan.parens = 0)
    (sign : ∀ rest, text.toList = '-' :: rest → startsNumber rest = true →
      signAllowed previous = true) :
    ∃ (move : Move) (last : Token), tokenize (String.ofList source) =
      .ok (before ++ tokens.map (·.moved move) ++ [last]) ∧ last.kind = .endOfInput := by
  obtain ⟨last, cut, ends⟩ := h.cut
  have fills := h.fills
  have content := h.content
  obtain ⟨some, -⟩ := Expression.plain_ofTokens h.read
  obtain ⟨token, more, rfl⟩ := List.exists_cons_of_ne_nil some
  rw [← String.ofList_toList (s := text)] at cut
  obtain ⟨move, cut'⟩ := tokenize_behind comes inside closed cut (content token (.head _))
    (fills.starts token rfl) sign
  refine ⟨move, last.moved move, ?_, ends⟩
  rw [cut']
  simp

end OperandOf

/-! ## Operators between operands -/

variable {tokensL tokensR : List Token}

/-- An operator of the output is one token, which is no part of what stands in front of it. -/
theorem written_operator (known : op ∈ writtenOperators) : ∃ kind, operatorKinds op = [kind] ∧
    kind ∉ [.leftParen, .assign, .conditionalAssign, .colon, .ident "not", .ident "important"] := by
  have all : ∀ op ∈ writtenOperators, ∃ kind ∈ (operatorKinds op).head?,
      operatorKinds op = [kind] ∧ kind ∉ [.leftParen, .assign, .conditionalAssign, .colon,
        .ident "not", .ident "important"] := by
    decide
  obtain ⟨kind, -, spelled⟩ := all op known
  exact ⟨kind, spelled⟩

/-- The tokens of two operands with an operator between them. -/
theorem OperandOf.cut_operation (known : op ∈ writtenOperators)
    (hl : OperandOf line textL eL tokensL) (hr : OperandOf line textR eR tokensR) :
    ∃ (mark : Token) (move : Move) (last : Token), operatorKinds op = [mark.kind] ∧
      tokenize (textL ++ (" " ++ op ++ " ") ++ textR) =
        .ok (tokensL ++ mark :: tokensR.map (·.moved move) ++ [last]) ∧
      last.kind = .endOfInput := by
  obtain ⟨kind, kinds, -⟩ := written_operator known
  obtain ⟨previous, scan, comes, inside⟩ := hl.comes (op.toList ++ ' ' :: textR.toList)
  have cuts : Cuts previous (' ' :: (op.toList ++ ' ' :: textR.toList)) (operatorKinds op ++ [])
      (some ' ') textR.toList :=
    .blank ((cuts_operator known (some ' ') textR.toList).append (.blank .nil))
  rw [List.append_nil, kinds] at cuts
  obtain ⟨marks, scan', comes', inside', same⟩ := comes.of_cuts cuts inside
  obtain ⟨mark, rfl, rfl⟩ := List.map_eq_singleton_iff.1 same
  have balances := hl.balances.append (balances_operatorKinds op)
  rw [kinds] at balances
  have shown : tokensL.map (·.kind) ++ [mark.kind] = (tokensL ++ [mark]).map (·.kind) := by simp
  rw [shown] at balances
  obtain ⟨move, last, cut, ends⟩ := hr.behind comes' inside' (comes'.closed balances)
    fun _ _ _ => rfl
  have spelled : String.ofList (textL.toList ++ ' ' :: (op.toList ++ ' ' :: textR.toList)) =
      textL ++ (" " ++ op ++ " ") ++ textR := by
    rw [← String.toList_inj]
    simp
  refine ⟨mark, move, last, kinds, ?_, ends⟩
  rw [← spelled, cut]
  simp

/-- Two values with an operator between them are read as its operation on them exactly where they
may stand bare on its sides. -/
theorem OperandOf.reads_operation_iff (known : op ∈ writtenOperators)
    (hl : OperandOf line textL eL tokensL) (hr : OperandOf line textR eR tokensR) :
    ReadsNode line (textL ++ (" " ++ op ++ " ") ++ textR)
        (.binary op eL.operand eR.operand line) ↔
      eL.Bare (BindsLeft · op) ∧ eR.Bare (BindsRight · op) := by
  obtain ⟨mark, move, last, kinds, cut, ends⟩ := hl.cut_operation known hr
  have stops : Stops (mark :: tokensR.map (·.moved move)) := by
    obtain ⟨kind, kinds', apart⟩ := written_operator known
    rw [kinds'] at kinds
    cases kinds
    rintro _ ⟨⟩
    exact apart
  constructor
  · rintro ⟨tokens, last', cut', -, read⟩
    rw [cut] at cut'
    obtain ⟨rfl, -⟩ := List.append_inj' (Except.ok.inj cut') rfl
    obtain ⟨same, grouped⟩ := kinds_of_read cut read
    have lengths := congrArg List.length same
    obtain ⟨lessL, singleL⟩ := hl.length_operand
    obtain ⟨lessR, singleR⟩ := hr.length_operand
    rw [Node.leaves, kinds] at lengths
    simp only [plainLeaves, List.length_map, List.length_append, List.length_cons,
      List.length_nil] at lengths
    obtain ⟨left, rfl⟩ := singleL (by omega)
    obtain ⟨right, rfl⟩ := singleR (by omega)
    exact ⟨grouped.1, grouped.2.1⟩
  · rintro ⟨bareL, bareR⟩
    obtain ⟨left, rfl, bindsLeft⟩ := hl.of_bare bareL
    obtain ⟨right, rfl, bindsRight⟩ := hr.of_bare bareR
    exact ⟨_, last, cut, ends, Expression.ofTokens_operation hl.read hr.read known kinds bindsLeft
      bindsRight (prolongs_append stops hl.unassigned) (hr.prolongs move)⟩

/-! ## Signs in front of operands -/

/-- A sign in front of the text is a token of its own: a minus sign if the text starts neither like
a number nor like a name, and a plus sign if no negative number starts the text. -/
def Detaches (sign : String) (text : List Char) : Prop :=
  (sign = "-" → startsNumber text = false ∧ startsNameAfterHyphen text = false) ∧
    (sign = "+" → ∀ rest, text = '-' :: rest → startsNumber rest = false)

theorem cuts_sign (sign : op ∈ writtenSigns) {text : List Char} (apart : Detaches op text) :
    ∃ c more previous, unaryText op (String.ofList text) = String.ofList (c :: more) ∧
      c ∉ [' ', '\t', '\n', '\r', '/'] ∧ Cuts none (c :: more) (operatorKinds op) previous text ∧
      ∀ rest, text = '-' :: rest → startsNumber rest = true → signAllowed previous = true := by
  simp only [writtenSigns, List.mem_cons, List.not_mem_nil, or_false] at sign
  rcases sign with rfl | rfl | rfl
  · have word : At none ('n' :: ['o', 't'] ++ ' ' :: text)
        ⟨.ident (String.ofList ['n', 'o', 't']), ['n', 'o', 't'], List.cons_ne_nil _ _⟩ :=
      at_word none (by decide) (by decide) (ended_blank text)
    exact ⟨'n', _, some ' ', unaryText_word (by decide) text, by decide,
      .lexeme word (.blank .nil), fun _ _ _ => rfl⟩
  · obtain ⟨unsigned, unnamed⟩ := apart.1 rfl
    refine ⟨'-', text, some '-', unaryText_sign (by decide) text, by decide,
      .mark (at_minus (fun starts => ?_) unnamed) .nil, ?_⟩
    · rw [unsigned] at starts
      cases starts
    · rintro rest rfl -
      cases unnamed
  · refine ⟨'+', text, some '+', unaryText_sign (by decide) text, by decide,
      .mark (at_plus none) .nil, fun rest hyphen starts => ?_⟩
    rw [apart.2 rfl rest hyphen] at starts
    cases starts

/-- The tokens of an operand with a sign in front of it. -/
theorem OperandOf.cut_signed (sign : op ∈ writtenSigns) (h : OperandOf line text e tokens)
    (apart : Detaches op text.toList) : ∃ (mark : Token) (move : Move) (last : Token),
      operatorKinds op = [mark.kind] ∧
      tokenize (unaryText op text) = .ok (mark :: tokens.map (·.moved move) ++ [last]) ∧
      last.kind = .endOfInput := by
  obtain ⟨kind, kinds, -⟩ := sign_kind (List.mem_cons_of_mem _ sign)
  obtain ⟨c, more, previous, spelled, solid, cuts, allowed⟩ := cuts_sign sign apart
  obtain ⟨start, stepped, inside⟩ := Scan.step_start more solid
  obtain ⟨marks, scan, comes, inside', same⟩ :=
    (Scan.Comes.start.step rfl stepped).of_cuts cuts inside
  have balances := balances_operatorKinds op
  rw [← same] at balances
  rw [kinds] at same
  obtain ⟨mark, rfl, rfl⟩ := List.map_eq_singleton_iff.1 same
  obtain ⟨move, last, cut, ends⟩ := h.behind comes inside' (comes.closed balances) allowed
  rw [String.ofList_toList] at spelled
  exact ⟨mark, move, last, kinds, spelled ▸ cut, ends⟩

/-- A hyphen in front of a number is its sign where one may stand. -/
theorem kind_of_startsNumber {previous : Option Char} {rest : List Char} {item : Lexeme}
    (starts : startsNumber rest = true) (allowed : signAllowed previous = true)
    (read : lexeme previous '-' rest = .ok item) :
    ∃ value letters, item.kind = .number value letters := by
  unfold lexeme at read
  rw [if_neg (by decide), if_pos (.inr ⟨rfl, starts, allowed⟩)] at read
  unfold number at read
  split at read
  · cases read
  · cases read
    exact ⟨_, _, rfl⟩

/-- What starts like a number does not start like a name behind a hyphen. -/
theorem unnamed_of_startsNumber {rest : List Char} (starts : startsNumber rest = true) :
    startsNameAfterHyphen rest = false := by
  unfold startsNumber at starts
  split at starts
  · rfl
  · exact startsNameAfterHyphen_of_isDigit starts
  · rfl

/-- A hyphen in front of a name is part of it. -/
theorem kind_of_startsName {previous : Option Char} {rest : List Char} {item : Lexeme}
    (starts : startsNameAfterHyphen rest = true) (unsigned : startsNumber rest = false)
    (read : lexeme previous '-' rest = .ok item) : ∃ word, item.kind = .ident word := by
  have hyphen : startsNumber ('-' :: rest) = false := rfl
  unfold lexeme at read
  rw [if_neg (by decide), if_neg (by simp [hyphen, unsigned]), if_pos (by simp [starts])] at read
  unfold name at read
  rw [if_neg (by simp)] at read
  cases read
  exact ⟨_, rfl⟩

/-- The first leaf of an operand is a parenthesis or the kind of its first token. -/
theorem OperandOf.head_operand (h : OperandOf line text e tokens) : ∃ token more kind kinds,
    tokens = token :: more ∧ e.operand.leaves.map (·.kind) = kind :: kinds ∧
      (kind = .leftParen ∨ kind = token.kind.merged) := by
  obtain ⟨some, plain, -⟩ := Expression.plain_ofTokens h.read
  obtain ⟨token, more, rfl⟩ := List.exists_cons_of_ne_nil some
  refine ⟨token, more, ?_⟩
  rcases Expression.leaves_operand plain with ⟨leaves, -⟩ | leaves
  · rw [leaves, h.kinds]
    exact ⟨_, _, rfl, rfl, .inr rfl⟩
  · rw [leaves]
    exact ⟨_, _, rfl, rfl, .inl rfl⟩

/-- A minus sign that is read in front of a value is a token of its own. -/
theorem detaches_minus
    (reads : ReadsNode line (unaryText "-" text) (.unary "-" node line)) :
    startsNumber text.toList = false ∧ startsNameAfterHyphen text.toList = false := by
  obtain ⟨signed, last, cut, -, read⟩ := reads
  obtain ⟨kinds, -⟩ := kinds_of_read cut read
  rw [← String.ofList_toList (s := text), unaryText_sign (by decide)] at cut
  obtain ⟨item, token, more, read', kind, split⟩ := exists_first (c := '-') (by decide) cut
  obtain _ | ⟨token', signed⟩ := signed
  · cases kinds
  have minus : Kind.minus = token'.kind.merged := (List.cons.inj kinds).1
  obtain ⟨rfl, -⟩ := List.cons.inj split
  rw [kind] at minus
  have unsigned : startsNumber text.toList = false := by
    by_contra starts
    obtain ⟨value, letters, number⟩ :=
      kind_of_startsNumber (Bool.eq_true_of_not_eq_false starts) rfl read'
    rw [number] at minus
    cases minus
  refine ⟨unsigned, ?_⟩
  by_contra starts
  obtain ⟨word, name⟩ := kind_of_startsName (Bool.eq_true_of_not_eq_false starts) unsigned read'
  rw [name] at minus
  cases minus

/-- A plus sign that is read in front of a value is followed by no hyphen before a number, which
would be a sign there instead of a part of the number. -/
theorem OperandOf.detaches_plus (h : OperandOf line text e tokens)
    (reads : ReadsNode line (unaryText "+" text) (.unary "+" e.operand line))
    (rest : List Char) (hyphen : text.toList = '-' :: rest) : startsNumber rest = false := by
  by_contra starts
  have starts := Bool.eq_true_of_not_eq_false starts
  obtain ⟨last, cut, -⟩ := h.cut
  obtain ⟨signed, last', cut', -, read⟩ := reads
  obtain ⟨kinds, -⟩ := kinds_of_read cut' read
  rw [Node.leaves, List.map_append] at kinds
  rw [← String.ofList_toList (s := text), hyphen] at cut cut'
  rw [unaryText_sign (by decide)] at cut'
  -- Alone the text starts with a negative number.
  obtain ⟨item, first, more, readFirst, kind, split⟩ := exists_first (by decide) cut
  obtain ⟨value, letters, number⟩ := kind_of_startsNumber starts rfl readFirst
  obtain ⟨token, others, head, tail, rfl, leaves, here⟩ := h.head_operand
  obtain ⟨rfl, -⟩ := List.cons.inj split
  rw [kind, number] at here
  -- Behind the plus sign it starts with a minus sign.
  obtain ⟨start, stepped, inside⟩ := Scan.step_start (c := '+') ('-' :: rest) (by decide)
  have cuts : Cuts none ('+' :: '-' :: rest) [.plus] (some '+') ('-' :: rest) :=
    .mark (at_plus none) .nil
  obtain ⟨marks, scan, comes, inside', same⟩ :=
    (Scan.Comes.start.step rfl stepped).of_cuts cuts inside
  obtain ⟨mark, rfl, -⟩ := List.map_eq_singleton_iff.1 same
  obtain ⟨item', second, behind, read', kind', split'⟩ :=
    comes.exists_lexeme inside' (by decide) cut'
  have minus : item'.kind = .minus := by
    have sign : At (some '+') ('-' :: rest) ⟨.minus, ['-'], List.cons_ne_nil _ _⟩ :=
      at_minus (fun _ => rfl) (unnamed_of_startsNumber starts)
    obtain ⟨c, text, here, -, read⟩ := sign.front
    cases here
    rw [read'] at read
    cases read
    rfl
  rw [leaves, kinds_plainLeaves] at kinds
  match signed with
  | [] => cases kinds
  | [_] => cases (List.cons.inj kinds).2
  | _ :: token' :: _ =>
    have same : head = token'.kind.merged := (List.cons.inj (List.cons.inj kinds).2).1
    obtain ⟨-, split'⟩ := List.cons.inj split'
    obtain ⟨rfl, -⟩ := List.cons.inj split'
    rw [same, kind', minus] at here
    rcases here with here | here <;> cases here

/-- A value with a sign in front of it is read as the sign on it exactly where it is no operation
and the sign is a token of its own. -/
theorem OperandOf.reads_signed_iff (sign : op ∈ writtenSigns) (h : OperandOf line text e tokens) :
    ReadsNode line (unaryText op text) (.unary op e.operand line) ↔
      e.Bare (fun _ => False) ∧ Detaches op text.toList := by
  constructor
  · intro reads
    have apart : Detaches op text.toList := by
      constructor
      · rintro rfl
        exact detaches_minus reads
      · rintro rfl
        exact h.detaches_plus reads
    refine ⟨?_, apart⟩
    obtain ⟨mark, move, last, kinds, cut, -⟩ := h.cut_signed sign apart
    obtain ⟨signed, last', cut', -, read⟩ := reads
    rw [cut] at cut'
    obtain ⟨rfl, -⟩ := List.append_inj' (Except.ok.inj cut') rfl
    obtain ⟨same, grouped⟩ := kinds_of_read cut read
    have lengths := congrArg List.length same
    rw [Node.leaves, kinds] at lengths
    simp only [plainLeaves, List.length_map, List.length_append, List.length_cons,
      List.length_nil] at lengths
    obtain ⟨node, rfl⟩ := h.length_operand.2 (by omega)
    intro inner operation
    have single : node.operation? = none := grouped.1
    rw [single] at operation
    cases operation
  · rintro ⟨bare, apart⟩
    obtain ⟨node, rfl, never⟩ := h.of_bare bare
    obtain ⟨mark, move, last, kinds, cut, ends⟩ := h.cut_signed sign apart
    exact ⟨_, last, cut, ends, Expression.ofTokens_signed h.read
      (Option.eq_none_iff_forall_not_mem.2 never) sign kinds (h.prolongs move)⟩

/-! ## Lookups -/

/-- In this view the node is written as a text of which this holds. -/
def View.Writes (view : View) (node : Node) (holds : String → Prop) : Prop :=
  ∃ fragment, node.value view = .ok fragment ∧ holds fragment.text

section

variable {view : View} {left right : Node} {holds : String → Prop}

theorem writes_iff {fragment : Fragment} (written : node.value view = .ok fragment) :
    view.Writes node holds ↔ holds fragment.text := by
  constructor
  · rintro ⟨other, written', here⟩
    cases written.symm.trans written'
    exact here
  · exact fun here => ⟨fragment, written, here⟩

/-- An operation is written as the texts of its operands with the operator between them. -/
theorem writes_binary_iff {l r : Fragment} (hl : left.value view = .ok l)
    (hr : right.value view = .ok r) (number : Nat) :
    view.Writes (.binary op left right number) holds ↔
      holds (l.text ++ (" " ++ outputOperator op ++ " ") ++ r.text) := by
  have written : (Node.binary op left right number).value view =
      .ok ⟨l.text ++ (" " ++ outputOperator op ++ " ") ++ r.text,
        l.warnings ++ (r.warnings ++ [])⟩ := by
    rw [Node.value, hl, hr]
    rfl
  exact writes_iff written

/-- A sign is written in front of the value that is looked up, without parentheses. -/
theorem writes_lookup_iff {name : String} (found : view.names.property? name = some text)
    (interpolated : Bool) (number number' : Nat) :
    view.Writes (.unary op (.ident name interpolated true number) number') holds ↔
      holds (unaryText op text) := by
  have written : (Node.unary op (.ident name interpolated true number) number').value view =
      .ok (.plain (unaryText op text)) := by
    rw [Node.value, Node.value, View.resolve, if_pos rfl, found]
    rfl
  exact writes_iff written

end

/-- A lookup next to an operator is written as the value that it finds. It is read back as one
operand exactly where this value and the other operand may stand bare there: where both are single
nodes, and their operations bind as tightly as the operator asks for. Behind a sign no operation
may stand bare, and the sign must be a token of its own. -/
theorem Node.value_looked_up {view : View} {name : String}
    (found : view.names.property? name = some text) (operand : Operand line text e)
    (interpolated : Bool) (number number' : Nat) :
    (∀ (op : String) (other : Node) (e' : Expression), tightness op ≠ 0 →
      view.Writes other (Operand line · e') →
      (view.Writes (.binary op (.ident name interpolated true number) other number')
          (ReadsNode line · (.binary (outputOperator op) e.operand e'.operand line)) ↔
        e.Bare (BindsLeft · (outputOperator op)) ∧ e'.Bare (BindsRight · (outputOperator op))) ∧
      (view.Writes (.binary op other (.ident name interpolated true number) number')
          (ReadsNode line · (.binary (outputOperator op) e'.operand e.operand line)) ↔
        e'.Bare (BindsLeft · (outputOperator op)) ∧ e.Bare (BindsRight · (outputOperator op)))) ∧
    ∀ op ∈ ["!", "not", "-", "+"],
      (view.Writes (.unary op (.ident name interpolated true number) number')
          (ReadsNode line · (.unary (outputOperator op) e.operand line)) ↔
        e.Bare (fun _ => False) ∧ Detaches (outputOperator op) text.toList) := by
  obtain ⟨tokens, operand⟩ := operand
  have lookup : (Node.ident name interpolated true number).value view = .ok (.plain text) := by
    rw [Node.value, View.resolve, if_pos rfl, found]
  refine ⟨?_, ?_⟩
  · rintro op other e' known ⟨fragment, written, tokens', operand'⟩
    have known' := outputOperator_known known
    rw [writes_binary_iff lookup written, writes_binary_iff written lookup]
    exact ⟨operand.reads_operation_iff known' operand', operand'.reads_operation_iff known' operand⟩
  · intro op sign
    have sign' : outputOperator op ∈ writtenSigns := by
      have all : ∀ op ∈ ["!", "not", "-", "+"], outputOperator op ∈ writtenSigns := by decide
      exact all op sign
    have same : unaryText op text = unaryText (outputOperator op) text := by
      unfold unaryText
      rw [outputOperator_written (List.mem_append_right _ sign')]
    rw [writes_lookup_iff found, same]
    exact operand.reads_signed_iff sign'

/-- A product that is looked up stays one operand of a sum, but not on the right of another product,
and not behind a sign. -/
theorem looked_up_product : ∃ (view : View) (lookup product : Node),
    lookup = .ident "width" false true 2 ∧ view.names.property? "width" = some "$a * $b" ∧
    Operand 1 "$a * $b" (.sequence [product] 1) ∧
    view.Writes (.name "$c" 2) (Operand 1 · (.sequence [.name "$c" 1] 1)) ∧
    view.Writes (.binary "+" lookup (.name "$c" 2) 2)
      (ReadsNode 1 · (.binary "+" product (.name "$c" 1) 1)) ∧
    ¬ view.Writes (.binary "*" (.name "$c" 2) lookup 2)
      (ReadsNode 1 · (.binary "*" (.name "$c" 1) product 1)) ∧
    ¬ view.Writes (.unary "-" lookup 2) (ReadsNode 1 · (.unary "-" product 1)) := by
  have written : (Node.binary "*" (.name "$a" 1) (.name "$b" 1) 1).Written 1 :=
    .binary (by decide) nofun nofun (.name (by decide)) (.name (by decide))
  have product : Operand 1 "$a * $b"
      (.sequence [.binary "*" (.name "$a" 1) (.name "$b" 1) 1] 1) := by
    refine ⟨[⟨.ident "$a", ⟨0, 2, 1, 1⟩⟩, ⟨.star, ⟨3, 4, 1, 4⟩⟩, ⟨.ident "$b", ⟨5, 7, 1, 6⟩⟩],
      ⟨⟨.endOfInput, ⟨7, 7, 1, 8⟩⟩, by decide +kernel, rfl⟩, ⟨?_, ?_⟩, ?_,
      Expression.ofTokens_written written (by decide)⟩
    · rintro _ ⟨⟩
      rfl
    · rintro _ ⟨⟩
      decide
    · unfold Unassigned
      decide
  have name : Operand 1 "$c" (.sequence [.name "$c" 1] 1) := by
    refine ⟨[⟨.ident "$c", ⟨0, 2, 1, 1⟩⟩], ⟨⟨.endOfInput, ⟨2, 2, 1, 3⟩⟩, by decide +kernel, rfl⟩,
      ⟨?_, ?_⟩, ?_, Expression.ofTokens_written (.name (by decide)) (by decide)⟩
    · rintro _ ⟨⟩
      rfl
    · rintro _ ⟨⟩
      decide
    · unfold Unassigned
      decide
  let view : View := ⟨Names.none.record "width" "$a * $b", false, .strict⟩
  have found : view.names.property? "width" = some "$a * $b" := by decide
  have other : view.Writes (.name "$c" 2) (Operand 1 · (.sequence [.name "$c" 1] 1)) := by
    refine ⟨.plain "$c", ?_, name⟩
    have resolved : view.resolve "$c" false false = "$c" := by decide
    exact congrArg (fun text => Except.ok (Fragment.plain text)) resolved
  obtain ⟨operators, signs⟩ := Node.value_looked_up found product false 2 2
  refine ⟨view, _, _, rfl, found, product, other, ?_, ?_, ?_⟩
  · refine (operators "+" _ _ (by decide) other).1.2 ⟨?_, nofun⟩
    rintro inner ⟨⟩
    rw [BindsLeft]
    decide
  · intro reads
    have bare : BindsRight "*" "*" := ((operators "*" _ _ (by decide) other).2.1 reads).2 "*" rfl
    rw [BindsRight] at bare
    exact absurd bare (by decide)
  · intro reads
    exact ((signs "-" (by decide)).1 reads).1 "*" rfl

end StylusToScss
