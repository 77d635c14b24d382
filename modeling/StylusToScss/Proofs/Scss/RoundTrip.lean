import StylusToScss.Proofs.Scss.Formula
import StylusToScss.Proofs.Value.Regrouping

/-!
# The text of a formula reads back

Cutting the text of a formula into tokens and reading them gives the formula again
(`Node.value_reads_back`). The proof follows the formula. For each node there is a text, the same in
every view, that is cut into the tokens of a written tree wherever it may stand (`Node.ReadsBack`);
that tree is read from its tokens, whatever stands around them. Which tree it is depends on the
character before the text: behind a blank or a parenthesis a hyphen before a number is its sign, and
behind another operator it is an operator.

* `value_regrouped`: what writing does not tell, and why bare operations have to be grouped.
-/

namespace StylusToScss

open Lexeme

/-! ## Operators -/

/-- An operator is spelled as one of the output. -/
theorem outputOperator_known {op : String} (known : tightness op ≠ 0) :
    outputOperator op ∈ writtenOperators := by
  revert known
  unfold tightness
  split <;> intro known
  all_goals first | exact absurd rfl known | decide

/-- An operator binds as before in the spelling of the output. -/
theorem tightness_outputOperator (op : String) : tightness (outputOperator op) = tightness op := by
  unfold outputOperator
  split <;> rfl

theorem outputOperator_eq_power (op : String) : outputOperator op = "**" ↔ op = "**" := by
  unfold outputOperator
  split <;> simp

theorem outputOperator_written {op : String} (known : op ∈ writtenOperators ++ writtenSigns) :
    outputOperator op = op := by
  have all : ∀ op ∈ writtenOperators ++ writtenSigns, outputOperator op = op := by decide
  exact all op known

/-- An operator of the output is one lexeme where a blank follows. -/
theorem cuts_operator {op : String} (known : op ∈ writtenOperators) (previous : Option Char)
    (rest : List Char) : Cuts previous (op.toList ++ ' ' :: rest) (operatorKinds op)
      op.toList.getLast? (' ' :: rest) := by
  have one {kind : Kind} {spelling : List Char} {notNil : spelling ≠ []}
      (front : At previous (spelling ++ ' ' :: rest) ⟨kind, spelling, notNil⟩)
      (spelled : op.toList = spelling) (kinds : operatorKinds op = [kind]) :
      Cuts previous (op.toList ++ ' ' :: rest) (operatorKinds op) op.toList.getLast?
        (' ' :: rest) := by
    rw [spelled, kinds]
    exact .lexeme front .nil
  have mark {c : Char} {tail : List Char} {kind : Kind}
      (solid : c ∉ [' ', '\t', '\n', '\r', '/'])
      (read : lexeme previous c (tail ++ ' ' :: rest) = .ok ⟨kind, c :: tail, by simp⟩) :
      At previous (c :: tail ++ ' ' :: rest) ⟨kind, c :: tail, List.cons_ne_nil _ _⟩ :=
    at_of_lexeme solid read
  simp only [writtenOperators, List.mem_cons, List.not_mem_nil, or_false] at known
  rcases known with rfl | rfl | rfl | rfl | rfl | rfl | rfl | rfl | rfl | rfl | rfl | rfl | rfl |
    rfl | rfl | rfl
  · exact one (at_word previous (by decide) (by decide) (ended_blank rest)) rfl rfl
  · exact one (at_word previous (by decide) (by decide) (ended_blank rest)) rfl rfl
  · exact one (@mark '=' ['='] _ (by decide) rfl) rfl rfl
  · exact one (@mark '!' ['='] _ (by decide) rfl) rfl rfl
  · exact one (@mark '<' [] _ (by decide) rfl) rfl rfl
  · exact one (@mark '>' [] _ (by decide) rfl) rfl rfl
  · exact one (@mark '<' ['='] _ (by decide) rfl) rfl rfl
  · exact one (@mark '>' ['='] _ (by decide) rfl) rfl rfl
  · exact one (@mark '.' ['.'] _ (by decide) rfl) rfl rfl
  · exact one (@mark '.' ['.', '.'] _ (by decide) rfl) rfl rfl
  · exact one (@mark '+' [] _ (by decide) rfl) rfl rfl
  · exact one (@mark '-' [] _ (by decide) rfl) rfl rfl
  · exact one (@mark '*' [] _ (by decide) rfl) rfl rfl
  · exact one ⟨⟨'/', ' ' :: rest, rfl, ⟨by decide, fun _ => rfl⟩, rfl⟩⟩ rfl rfl
  · exact one (@mark '%' [] _ (by decide) rfl) rfl rfl
  · exact one (@mark '*' ['*'] _ (by decide) rfl) rfl rfl

/-! ## Bindings -/

theorem bindsLeft_output (inner op : String) :
    BindsLeft (outputOperator inner) (outputOperator op) ↔ BindsLeft inner op := by
  simp only [BindsLeft, tightness_outputOperator, outputOperator_eq_power]

theorem bindsRight_output (inner op : String) :
    BindsRight (outputOperator inner) (outputOperator op) ↔ BindsRight inner op := by
  simp only [BindsRight, tightness_outputOperator, outputOperator_eq_power]

/-- A written tree in the canonical form of a node is the operation that the node is. -/
theorem operation?_of_canonical {line : Nat} {tree node : Node} (written : tree.Written line)
    (same : tree.canonical = node.canonical) :
    tree.operation? = node.operation?.map outputOperator := by
  have spelled : tree.operation?.map outputOperator = tree.operation? := by
    cases written with
    | binary known =>
      exact congrArg some (outputOperator_written (List.mem_append_left _ known))
    | _ => rfl
  rw [← spelled, ← Node.operation?_canonical, ← Node.operation?_canonical, same]

/-! ## What is written reads back -/

/-- The text up to `rest` is cut into the tokens of a written tree of this canonical form. The
character before it is `previous`. -/
def ReadsAs (line : Nat) (canonical : Node) (previous : Option Char) (text rest : List Char) :
    Prop :=
  ∃ (tree : Node) (last : Option Char), tree.Written line ∧ tree.canonical = canonical ∧
    Cuts previous text tree.kinds last rest

/-- The node is written as this text, whatever the view. Wherever no lexeme goes on behind the text,
the node is read back from it. So is the node behind a minus sign, if its text does not start like a
name. -/
structure Node.ReadsBack (line : Nat) (node : Node) (text : List Char) : Prop where
  writes : ∀ view : View, node.value view = .ok (.plain (String.ofList text))
  solid : ∃ c more, text = c :: more ∧ c ∉ [' ', '\t', '\n', '\r', '/']
  reads : ∀ previous rest, Ended rest → ReadsAs line node.canonical previous (text ++ rest) rest
  hyphened : node.operation? = none → node.startsName = false → ∀ previous rest, Ended rest →
    ReadsAs line (signed "-" node.canonical) previous ('-' :: (text ++ rest)) rest

section

variable {line : Nat} {node tree : Node} {text : List Char}

/-- A sign before an operand that is read back. -/
theorem Node.Written.canonical_unary {op : String} (sign : op ∈ writtenSigns)
    (written : tree.Written line) (single : node.operation? = none)
    (same : tree.canonical = node.canonical) : (Node.unary op tree line).Written line ∧
      (Node.unary op tree line).canonical = signed op node.canonical := by
  have bare : tree.operation? = none := by
    rw [operation?_of_canonical written same, single]
    rfl
  have bare' : node.canonical.operation? = none := by
    rw [operation?_canonical, single]
    rfl
  refine ⟨.unary sign bare written, ?_⟩
  rw [canonical, outputOperator_written (List.mem_append_right _ sign), same,
    enclosed_of_operation? bare']

/-- A hyphen before a text that starts neither a number nor a name is a minus sign. -/
theorem hyphened_of_reads {c : Char} {more : List Char} (first : c ∈ ['$', '(', '+'])
    (single : node.operation? = none) (reads : ∀ previous rest, Ended rest →
      ReadsAs line node.canonical previous (c :: more ++ rest) rest) (previous : Option Char)
    (rest : List Char) (ended : Ended rest) :
    ReadsAs line (signed "-" node.canonical) previous ('-' :: (c :: more ++ rest)) rest := by
  obtain ⟨tree, last, written, same, cuts⟩ := reads (some '-') rest ended
  have sign : "-" ∈ writtenSigns := by decide
  obtain ⟨written', canonical⟩ := written.canonical_unary sign single same
  refine ⟨_, last, written', canonical, ?_⟩
  have plain : startsNumber (c :: more ++ rest) = false ∧
      startsNameAfterHyphen (c :: more ++ rest) = false := by
    simp only [List.mem_cons, List.not_mem_nil, or_false] at first
    rcases first with rfl | rfl | rfl <;> exact ⟨rfl, rfl⟩
  obtain ⟨unsigned, unnamed⟩ := plain
  rw [Node.kinds_unary]
  refine .mark (at_minus (fun starts => ?_) unnamed) cuts
  rw [unsigned] at starts
  cases starts

theorem readsBack_name {name : String} {number : Nat} (h : IsVariableName name) :
    (Node.name name number).ReadsBack line name.toList := by
  obtain ⟨tail, split_, one, whole⟩ := h
  have name_eq : name = String.ofList ('$' :: tail) := by rw [← split_, String.ofList_toList]
  have reads : ∀ previous rest, Ended rest → ReadsAs line (Node.name name number).canonical previous
      ('$' :: tail ++ rest) rest := by
    intro previous rest ended
    refine ⟨.name name line, ('$' :: tail).getLast?, .name (by rw [split_]; rfl), rfl, ?_⟩
    have kinds : (Node.name name line).kinds = [.ident (String.ofList ('$' :: tail))] := by
      rw [← name_eq]
      rfl
    rw [kinds]
    exact .lexeme (at_word previous (by decide) whole ended) .nil
  rw [split_]
  refine ⟨fun view => ?_, ⟨'$', tail, rfl, by decide⟩, reads, fun _ _ => hyphened_of_reads
    (by decide) rfl reads⟩
  have stripped : ('$' :: tail).dropWhile (· == '$') = tail := by
    cases tail with
    | nil => rfl
    | cons c tail =>
      have other : (c == '$') = false := by simpa using one
      simp [other]
  have bare : bareName name = String.ofList tail := by rw [bareName, split_, stripped]
  have written : reference name = String.ofList ('$' :: tail) := by
    rw [reference, bare, ← String.toList_inj]
    simp
  rw [Node.name, Node.value, View.resolve, ← written]
  simp [split_]

end

/-! ## Numbers -/

/-- The letters of a unit are a percent sign or letters only, and no empty name. -/
theorem IsUnitName.spec {unit : Option String} (h : IsUnitName unit) : unit ≠ some "" ∧
    ((unit.getD "").toList = ['%'] ∨ ∀ c ∈ (unit.getD "").toList, c.isAlpha = true) := by
  cases unit with
  | none => exact ⟨nofun, .inr nofun⟩
  | some letters =>
    rcases h letters rfl with rfl | ⟨notNil, all⟩
    · exact ⟨by decide, .inl rfl⟩
    · exact ⟨fun none => notNil (Option.some.inj none), .inr all⟩

/-- The text of a number with its unit behind the sign. -/
def unsignedMeasure (rank : Fin Binary64.rankLimit) (unit : Option String) : List Char :=
  Binary64.unsignedText rank ++ (unit.getD "").toList

section

variable {line : Nat} {rank : Fin Binary64.rankLimit} {unit : Option String} {rest : List Char}

theorem Node.kinds_measure (value : Binary64) (unit : Option String) (line : Nat) :
    (Node.measure value unit line).kinds =
      [.number value (String.ofList (unit.getD "").toList)] := by
  rw [String.ofList_toList]
  rfl

theorem unsignedMeasure_head (rank : Fin Binary64.rankLimit) (unit : Option String) :
    ∃ c more, unsignedMeasure rank unit = c :: more ∧ c.isDigit = true := by
  obtain ⟨c, more, same, digit⟩ := (Binary64.numeral_unsignedText rank).head_isDigit
  exact ⟨c, more ++ (unit.getD "").toList, by rw [unsignedMeasure, same]; rfl, digit⟩

theorem cuts_measure (line : Nat) (previous : Option Char) (lettered : IsUnitName unit)
    (ended : Ended rest) :
    Cuts previous (unsignedMeasure rank unit ++ rest)
      (Node.measure (.finite false rank) unit line).kinds (unsignedMeasure rank unit).getLast?
      rest := by
  have notNil : unsignedMeasure rank unit ≠ [] := by
    obtain ⟨c, more, same, -⟩ := unsignedMeasure_head rank unit
    rw [same]
    exact List.cons_ne_nil _ _
  rw [Node.kinds_measure]
  exact .lexeme (at_number previous (Binary64.numeral_unsignedText rank) lettered.spec.2 ended
    notNil) .nil

/-- A hyphen before a number is its sign, or a minus sign where none is allowed. -/
theorem readsAs_negative (previous : Option Char) (lettered : IsUnitName unit)
    (ended : Ended rest) :
    ReadsAs line (.measure (Binary64.finite true rank).asValue unit 0) previous
      ('-' :: (unsignedMeasure rank unit ++ rest)) rest := by
  cases allowed : signAllowed previous with
  | true =>
    refine ⟨.measure (.finite true rank) unit line, ('-' :: unsignedMeasure rank unit).getLast?,
      .measure _ lettered.spec.1, rfl, ?_⟩
    rw [Node.kinds_measure]
    exact .lexeme (at_negative allowed (Binary64.numeral_unsignedText rank) lettered.spec.2 ended)
      .nil
  | false =>
    have unnamed : startsNameAfterHyphen (unsignedMeasure rank unit ++ rest) = false := by
      obtain ⟨c, more, same, digit⟩ := unsignedMeasure_head rank unit
      rw [same]
      exact startsNameAfterHyphen_of_isDigit digit
    have cuts := Cuts.mark (at_minus (fun _ => allowed) unnamed)
      (cuts_measure line (some '-') lettered ended)
    refine ⟨.unary "-" (.measure (.finite false rank) unit line) line, _,
      .unary (by decide) rfl (.measure _ lettered.spec.1), ?_, cuts⟩
    show Node.measure (Binary64.finite false rank).asValue.negated.asValue unit 0 = _
    rw [Binary64.asValue_of_shownSign]
    rfl

/-- A number that is shown without a sign. -/
theorem readsBack_unsigned {negative : Bool} {number : Nat}
    (shown : Binary64.shownSign negative rank = false) (lettered : IsUnitName unit) :
    (Node.measure (.finite negative rank) unit number).ReadsBack line
      (unsignedMeasure rank unit) := by
  have canonical : (Node.measure (.finite negative rank) unit number).canonical =
      .measure (.finite false rank) unit 0 := by
    rw [Node.canonical, Binary64.asValue_of_shownSign, shown]
  refine ⟨fun view => ?_, ?_, fun previous rest ended => ?_, fun _ _ previous rest ended => ?_⟩
  · rw [Node.value, measureText, unsignedMeasure, ← String.ofList_toList (s := _ ++ _)]
    simp [Binary64.toList_formatNumber, shown]
  · obtain ⟨c, more, same, digit⟩ := unsignedMeasure_head rank unit
    exact ⟨c, more, same, solid_of_isDigit digit⟩
  · refine ⟨_, _, .measure (.finite false rank) lettered.spec.1, ?_,
      cuts_measure line previous lettered ended⟩
    rw [canonical, Node.canonical, Binary64.asValue_of_shownSign]
    rfl
  · rw [canonical]
    exact readsAs_negative previous lettered ended

/-- A number that is shown with a sign. -/
theorem readsBack_signed {number : Nat} (shown : Binary64.shownSign true rank = true)
    (lettered : IsUnitName unit) : (Node.measure (.finite true rank) unit number).ReadsBack line
      ('-' :: unsignedMeasure rank unit) := by
  refine ⟨fun view => ?_, ⟨'-', _, rfl, by decide⟩, fun previous rest ended => ?_, ?_⟩
  · rw [Node.value, measureText, unsignedMeasure, ← String.ofList_toList (s := _ ++ _)]
    simp [Binary64.toList_formatNumber, shown]
  · exact readsAs_negative previous lettered ended
  · intro _ apart
    rw [Node.startsName, shown] at apart
    cases apart

theorem readsBack_measure {value : Binary64} {number : Nat} (finite : value.isFinite = true)
    (lettered : IsUnitName unit) :
    ∃ text, (Node.measure value unit number).ReadsBack line text := by
  cases value with
  | finite negative rank =>
    cases shown : Binary64.shownSign negative rank with
    | false => exact ⟨_, readsBack_unsigned shown lettered⟩
    | true =>
      obtain rfl : negative = true := (Bool.and_eq_true_iff.1 shown).1
      exact ⟨_, readsBack_signed shown lettered⟩
  | infinite => cases finite
  | nan => cases finite

end

/-! ## Operations -/

section

variable {line number : Nat} {node left right operand : Node} {text textL textR : List Char}
  {op : String}

theorem parenthesize_ofList (text : List Char) :
    parenthesize (String.ofList text) = String.ofList ('(' :: (text ++ [')'])) := by
  rw [← String.toList_inj]
  simp [parenthesize]

/-- One node in parentheses is written between them, whether or not it is a list. -/
theorem Node.value_parenthesized (view : View) (node : Node) (isList : Bool) (line : Nat) :
    (Node.expression ⟨[node], isList, true, line⟩).value view =
      (node.value view).map fun written => ⟨parenthesize written.text, written.warnings⟩ := by
  simp only [Node.value, Expression.value, values]
  cases node.value view with
  | error e => rfl
  | ok written =>
    show Except.ok (Fragment.mk (parenthesize written.text) (written.warnings ++ [])) = _
    rw [List.append_nil]
    rfl

theorem Node.ReadsBack.parenthesized (h : node.ReadsBack line text) :
    (Node.expression ⟨[node], false, true, number⟩).ReadsBack line ('(' :: (text ++ [')'])) := by
  have reads : ∀ previous rest, Ended rest →
      ReadsAs line (Node.expression ⟨[node], false, true, number⟩).canonical previous
        ('(' :: (text ++ [')']) ++ rest) rest := by
    intro previous rest ended
    obtain ⟨tree, last, written, same, cuts⟩ :=
      h.reads (some '(') (')' :: rest) (ended_closing rest)
    have whole := Cuts.mark (at_leftParen previous)
      (cuts.append (.mark (at_rightParen last) .nil))
    refine ⟨.expression ⟨[tree], false, true, line⟩, some ')', .parenthesized written, ?_, ?_⟩
    · show Node.expression ⟨[tree.canonical], false, true, 0⟩ =
        .expression ⟨[node.canonical], false, true, 0⟩
      rw [same]
    · rw [Node.kinds_parenthesized, List.cons_append, List.append_assoc]
      exact whole
  refine ⟨fun view => ?_, ⟨'(', _, rfl, by decide⟩, reads, fun _ _ => hyphened_of_reads
    (by decide) rfl reads⟩
  rw [Node.value_parenthesized, h.writes, ← parenthesize_ofList]
  rfl

/-- In a formula only a bare operation is compound. -/
theorem Node.Formula.isCompound (h : node.Formula) :
    StylusToScss.isCompound node = node.operation?.isSome := by
  cases h <;> rfl

/-- What stands behind an operator: the operand itself, or a bare operation in parentheses. -/
theorem Node.ReadsBack.enclosed (h : node.ReadsBack line text) (formula : node.Formula) :
    ∃ text', node.enclosed.ReadsBack line text' ∧
      (if isCompound node then parenthesize (String.ofList text) else String.ofList text) =
        String.ofList text' := by
  rw [formula.isCompound]
  cases node with
  | binary op left right line' => exact ⟨_, h.parenthesized, parenthesize_ofList text⟩
  | _ => exact ⟨text, h, rfl⟩

/-- The operations on the sides of an operator stay where their operators bind. -/
theorem binds_of_canonical (p : String → String → Prop)
    (output : ∀ inner op, p (outputOperator inner) (outputOperator op) ↔ p inner op) {tree : Node}
    (written : tree.Written line) (same : tree.canonical = node.canonical)
    (binds : ∀ inner ∈ node.operation?, p inner op) :
    ∀ inner ∈ tree.operation?, p inner (outputOperator op) := by
  rw [operation?_of_canonical written same]
  intro inner bare
  obtain ⟨inner', here, rfl⟩ := Option.mem_map.1 bare
  exact (output inner' op).2 (binds inner' here)

theorem Node.ReadsBack.binary (known : tightness op ≠ 0)
    (bindsLeft : ∀ inner ∈ left.operation?, BindsLeft inner op)
    (bindsRight : ∀ inner ∈ right.operation?, BindsRight inner op)
    (hl : left.ReadsBack line textL) (hr : right.ReadsBack line textR) :
    (Node.binary op left right number).ReadsBack line
      (textL ++ ' ' :: ((outputOperator op).toList ++ ' ' :: textR)) := by
  have known' := outputOperator_known known
  refine ⟨fun view => ?_, ?_, fun previous rest ended => ?_, nofun⟩
  · have spelled : String.intercalate (" " ++ outputOperator op ++ " ")
        [String.ofList textL, String.ofList textR] =
        String.ofList (textL ++ ' ' :: ((outputOperator op).toList ++ ' ' :: textR)) := by
      show String.ofList textL ++ (" " ++ outputOperator op ++ " ") ++ String.ofList textR = _
      rw [← String.toList_inj]
      simp
    rw [Node.value, hl.writes, hr.writes, ← spelled]
    rfl
  · obtain ⟨c, more, rfl, solid⟩ := hl.solid
    exact ⟨c, _, rfl, solid⟩
  · obtain ⟨treeL, lastL, writtenL, sameL, cutsL⟩ := hl.reads previous
      (' ' :: ((outputOperator op).toList ++ ' ' :: (textR ++ rest))) (ended_blank _)
    obtain ⟨treeR, lastR, writtenR, sameR, cutsR⟩ := hr.reads (some ' ') rest ended
    refine ⟨.binary (outputOperator op) treeL treeR line, lastR, .binary known'
      (binds_of_canonical BindsLeft bindsLeft_output writtenL sameL bindsLeft)
      (binds_of_canonical BindsRight bindsRight_output writtenR sameR bindsRight)
      writtenL writtenR, ?_, ?_⟩
    · rw [Node.canonical, Node.canonical, sameL, sameR,
        outputOperator_written (List.mem_append_left _ known')]
    · have middle := (cuts_operator known' (some ' ') (textR ++ rest)).append (.blank cutsR)
      rw [Node.kinds_binary, List.append_assoc, List.cons_append, List.append_assoc,
        List.cons_append]
      exact cutsL.append (.blank middle)

theorem unaryText_sign (mark : (outputOperator op).toList.all Text.isAlphabetic = false)
    (text : List Char) :
    unaryText op (String.ofList text) = String.ofList ((outputOperator op).toList ++ text) := by
  rw [unaryText, if_neg (by simp [mark]), ← String.toList_inj]
  simp

theorem unaryText_word (word : (outputOperator op).toList.all Text.isAlphabetic = true)
    (text : List Char) :
    unaryText op (String.ofList text) =
      String.ofList ((outputOperator op).toList ++ ' ' :: text) := by
  rw [unaryText, if_pos word, ← String.toList_inj]
  simp

theorem Node.startsName_enclosed (apart : node.startsName = false) :
    node.enclosed.startsName = false := by
  cases node with
  | binary op left right line' => rfl
  | _ => exact apart

/-- The word stands before its operand with a blank between them. -/
theorem readsAs_not (h : operand.ReadsBack line text) (single : operand.operation? = none)
    (previous : Option Char) {rest : List Char} (ended : Ended rest) :
    ReadsAs line (signed "not" operand.canonical) previous
      ('n' :: 'o' :: 't' :: ' ' :: (text ++ rest)) rest := by
  obtain ⟨tree, last, written, same, cuts⟩ := h.reads (some ' ') rest ended
  have sign : "not" ∈ writtenSigns := by decide
  obtain ⟨written', canonical⟩ := written.canonical_unary sign single same
  refine ⟨_, last, written', canonical, ?_⟩
  have word : At previous ('n' :: ['o', 't'] ++ ' ' :: (text ++ rest))
      ⟨.ident (String.ofList ['n', 'o', 't']), ['n', 'o', 't'], List.cons_ne_nil _ _⟩ :=
    at_word previous (by decide) (by decide) (ended_blank _)
  rw [Node.kinds_unary]
  exact .lexeme word (.blank cuts)

theorem readsAs_plus (h : operand.ReadsBack line text) (single : operand.operation? = none)
    (previous : Option Char) {rest : List Char} (ended : Ended rest) :
    ReadsAs line (signed "+" operand.canonical) previous ('+' :: (text ++ rest)) rest := by
  obtain ⟨tree, last, written, same, cuts⟩ := h.reads (some '+') rest ended
  have sign : "+" ∈ writtenSigns := by decide
  obtain ⟨written', canonical⟩ := written.canonical_unary sign single same
  refine ⟨_, last, written', canonical, ?_⟩
  rw [Node.kinds_unary]
  exact .mark (at_plus previous) cuts

theorem Node.ReadsBack.unary (sign : op ∈ ["!", "not", "-", "+"])
    (apart : op = "-" → operand.startsName = false) (formula : operand.Formula)
    (h : operand.ReadsBack line text) :
    ∃ text', (Node.unary op operand number).ReadsBack line text' := by
  obtain ⟨inner, enclosed, shown⟩ := h.enclosed formula
  have single := operand.operation?_enclosed
  have writes (view : View) : (Node.unary op operand number).value view =
      .ok (.plain (unaryText op (String.ofList inner))) := by
    rw [Node.value, h.writes, ← shown]
    rfl
  have canonical : (Node.unary op operand number).canonical =
      signed (outputOperator op) operand.enclosed.canonical := by
    rw [Node.canonical, Node.canonical_enclosed]
  have not (output : outputOperator op = "not") (other : op ≠ "+") :
      (Node.unary op operand number).ReadsBack line ('n' :: 'o' :: 't' :: ' ' :: inner) := by
    refine ⟨fun view => ?_, ⟨'n', _, rfl, by decide⟩, fun previous rest ended => ?_, ?_⟩
    · rw [writes, unaryText_word (by rw [output]; decide), output]
      rfl
    · rw [canonical, output]
      exact readsAs_not enclosed single previous ended
    · intro _ plain
      rw [Node.startsName, bne_iff_ne.2 other] at plain
      cases plain
  simp only [List.mem_cons, List.not_mem_nil, or_false] at sign
  rcases sign with rfl | rfl | rfl | rfl
  · exact ⟨_, not rfl (by decide)⟩
  · exact ⟨_, not rfl (by decide)⟩
  · refine ⟨'-' :: inner, fun view => ?_, ⟨'-', _, rfl, by decide⟩, ?_, ?_⟩
    · rw [writes, unaryText_sign (by decide)]
      rfl
    · rw [canonical]
      exact enclosed.hyphened single (Node.startsName_enclosed (apart rfl))
    · intro _ plain
      cases plain
  · have reads : ∀ previous rest, Ended rest → ReadsAs line
        (Node.unary "+" operand number).canonical previous ('+' :: inner ++ rest) rest := by
      intro previous rest ended
      rw [canonical]
      exact readsAs_plus enclosed single previous ended
    refine ⟨'+' :: inner, fun view => ?_, ⟨'+', _, rfl, by decide⟩, reads, fun _ _ =>
      hyphened_of_reads (by decide) rfl reads⟩
    rw [writes, unaryText_sign (by decide)]
    rfl

/-- Every formula is written as a text that it is read back from. -/
theorem Node.Formula.readsBack (line : Nat) (h : node.Formula) :
    ∃ text, node.ReadsBack line text := by
  induction h with
  | name variable_ => exact ⟨_, readsBack_name variable_⟩
  | measure finite lettered => exact readsBack_measure finite lettered
  | unary sign apart h ih =>
    obtain ⟨text, readsBack⟩ := ih
    exact readsBack.unary sign apart h
  | binary known bindsLeft bindsRight _ _ ihl ihr =>
    obtain ⟨textL, left⟩ := ihl
    obtain ⟨textR, right⟩ := ihr
    exact ⟨_, left.binary known bindsLeft bindsRight right⟩
  | parenthesized _ ih =>
    obtain ⟨text, readsBack⟩ := ih
    exact ⟨_, readsBack.parenthesized⟩

/-- The text of a node that is read back is cut into tokens, and they are read as that node. -/
theorem Node.ReadsBack.tokens (h : node.ReadsBack line text) : ∃ tokens last tree,
    tokenize (String.ofList text) = .ok (tokens ++ [last]) ∧ last.kind = .endOfInput ∧
      Expression.ofTokens tokens line = .ok (.sequence [tree] line) ∧
      tree.canonical = node.canonical := by
  obtain ⟨tree, final, written, same, cuts⟩ := h.reads none [] ended_nil
  obtain ⟨c, more, rfl, solid⟩ := h.solid
  rw [List.append_nil] at cuts
  obtain ⟨tokens, last, cut, kinds, ends⟩ := tokenize_of_cuts cuts solid
  exact ⟨tokens, last, tree, cut, ends, Expression.ofTokens_written written kinds, same⟩

/-- A formula is written as a text that reads as the same formula, up to the spelling of operators,
line numbers, parentheses that are added behind a sign, and signs of numbers. So formulas of one
text are the same formula. -/
theorem Node.value_reads_back (formula : node.Formula) (view : View) (line : Nat) :
    (∃ text tokens last tree, node.value view = .ok (.plain text) ∧
      tokenize text = .ok (tokens ++ [last]) ∧ last.kind = .endOfInput ∧
      Expression.ofTokens tokens line = .ok (.sequence [tree] line) ∧
      tree.canonical = node.canonical) ∧
    ∀ (other : Node) (view' : View), other.Formula → other.value view' = node.value view →
      other.canonical = node.canonical := by
  obtain ⟨text, readsBack⟩ := formula.readsBack line
  obtain ⟨tokens, last, tree, cut, ends, read, same⟩ := readsBack.tokens
  refine ⟨⟨_, tokens, last, tree, readsBack.writes view, cut, ends, read, same⟩, ?_⟩
  intro other view' formula' written
  obtain ⟨text', readsBack'⟩ := formula'.readsBack line
  obtain ⟨tokens', last', tree', cut', -, read', same'⟩ := readsBack'.tokens
  rw [readsBack.writes, readsBack'.writes] at written
  have same_text : String.ofList text' = String.ofList text :=
    congrArg Fragment.text (Except.ok.inj written)
  rw [same_text, cut] at cut'
  obtain ⟨rfl, -⟩ := List.append_inj' (Except.ok.inj cut') rfl
  rw [read] at read'
  have same_nodes := congrArg Expression.nodes (Except.ok.inj read')
  obtain ⟨rfl, -⟩ := List.cons.inj same_nodes
  rw [← same', same]

end

/-- A condition with a bare operation behind a sign, another spelling of each operator, and a sign
that is read as one of a number. -/
theorem reads_back_condition : ∃ node : Node, node.Formula ∧
    (node.value ⟨.none, false, .strict⟩).toOption.map (·.text) =
      some "not ($a == -5px) or -2" ∧
    ∃ text tokens last tree, node.value ⟨.none, false, .strict⟩ = .ok (.plain text) ∧
      tokenize text = .ok (tokens ++ [last]) ∧ last.kind = .endOfInput ∧
      Expression.ofTokens tokens 1 = .ok (.sequence [tree] 1) ∧
      tree.canonical = node.canonical := by
  have name : IsVariableName "$a" := ⟨['a'], by decide, by decide, by decide⟩
  have pixels : IsUnitName (some "px") := by
    rintro letters ⟨⟩
    refine .inr ⟨by decide, fun c letter => ?_⟩
    simp only [String.reduceToList, List.mem_cons, List.not_mem_nil, or_false] at letter
    rcases letter with rfl | rfl <;> rfl
  have comparison : (Node.binary "is" (.name "$a" 1) (.measure (.ofInt (-5)) (some "px") 1)
      1).Formula :=
    .binary (by decide) nofun nofun (.name name) (.measure (by decide +kernel) pixels)
  have formula : (Node.binary "||" (.unary "!" (.binary "is" (.name "$a" 1)
      (.measure (.ofInt (-5)) (some "px") 1) 1) 1) (.unary "-" (.measure (.ofInt 2) none 1) 1)
      1).Formula :=
    .binary (by decide) nofun nofun (.unary (by decide) nofun comparison)
      (.unary (by decide) (fun _ => by decide +kernel) (.measure (by decide +kernel) nofun))
  exact ⟨_, formula, by decide +kernel,
    (Node.value_reads_back formula ⟨.none, false, .strict⟩ 1).1⟩

/-- Writing keeps the order of the operands of two operators, but not which of them is applied
first. -/
theorem value_regrouped (view : View) (op op' : String) (a b c : Node) (line line' : Nat) :
    (Node.binary op' (.binary op a b line) c line).value view =
      (Node.binary op a (.binary op' b c line') line').value view := by
  have join (separator : String) (first second : Fragment) :
      Fragment.join separator [first, second] =
        ⟨first.text ++ separator ++ second.text, first.warnings ++ (second.warnings ++ [])⟩ := rfl
  simp only [Node.value]
  cases a.value view with
  | error e => rfl
  | ok first =>
    cases b.value view with
    | error e => rfl
    | ok second =>
      cases c.value view with
      | error e => rfl
      | ok third =>
        simp only [ok_bind, pure, Except.pure, join, String.append_assoc, List.append_assoc,
          List.append_nil]

/-- A product of a sum that stands bare, as no source is read. -/
def bareSum : Node :=
  .binary "*" (.binary "+" (.measure (.ofInt 1) none 1) (.measure (.ofInt 2) none 1) 1)
    (.measure (.ofInt 3) none 1) 1

/-- Two nodes are written alike and are not the same formula. -/
def Node.Alike (node other : Node) : Prop :=
  node.value ⟨.none, false, .strict⟩ = other.value ⟨.none, false, .strict⟩ ∧
    node.canonical ≠ other.canonical

/-- What a text does not tell. A product of a sum that stands bare is written like a sum, and read
back as one. A name is written with one dollar sign however many it has, and one that looks up a
property like one that does not. An empty unit is written like none, and a list of one node like no
list. An interpolated name is not read as a value. -/
theorem reads_back_otherwise :
    (∃ text tokens last tree, bareSum.value ⟨.none, false, .strict⟩ = .ok (.plain text) ∧
      tokenize text = .ok (tokens ++ [last]) ∧ last.kind = .endOfInput ∧
      Expression.ofTokens tokens 1 = .ok (.sequence [tree] 1) ∧
      tree.canonical ≠ bareSum.canonical) ∧
    (Node.name "$$x" 1).Alike (.name "$x" 1) ∧
    (Node.ident "$x" false true 1).Alike (.name "$x" 1) ∧
    (Node.measure (.ofInt 1) (some "") 1).Alike (.measure (.ofInt 1) none 1) ∧
    (Node.expression ⟨[.name "$x" 1], true, true, 1⟩).Alike
      (.expression ⟨[.name "$x" 1], false, true, 1⟩) ∧
    (((Node.ident "$x" true false 1).value ⟨.none, false, .strict⟩).toOption.map (·.text) =
        some "#\x7b$x\x7d" ∧
      (tokenize "#\x7b$x\x7d").toOption.map (fun tokens =>
        (Expression.ofTokens tokens.dropLast 1).toOption.isSome) = some false) := by
  have number (n : Int) (finite : (Binary64.ofInt n).isFinite = true) :
      (Node.measure (.ofInt n) none 1).Formula := .measure finite nofun
  have sum : (Node.binary "+" (.measure (.ofInt 1) none 1)
      (.binary "*" (.measure (.ofInt 2) none 1) (.measure (.ofInt 3) none 1) 1) 1).Formula := by
    refine .binary (by decide) nofun ?_ (number 1 (by decide +kernel))
      (.binary (by decide) nofun nofun (number 2 (by decide +kernel))
        (number 3 (by decide +kernel)))
    rintro inner ⟨⟩
    rw [BindsRight]
    decide
  have listed : (Node.expression ⟨[.name "$x" 1], true, true, 1⟩).value ⟨.none, false, .strict⟩ =
      (Node.expression ⟨[.name "$x" 1], false, true, 1⟩).value ⟨.none, false, .strict⟩ := by
    rw [Node.value_parenthesized, Node.value_parenthesized]
  obtain ⟨text, readsBack⟩ := sum.readsBack 1
  obtain ⟨tokens, last, tree, cut, ends, read, same⟩ := readsBack.tokens
  refine ⟨⟨_, tokens, last, tree, ?_, cut, ends, read, ?_⟩, ⟨?_, ?_⟩, ⟨rfl, ?_⟩, ⟨rfl, ?_⟩,
    ⟨listed, ?_⟩, by decide +kernel⟩
  · rw [← readsBack.writes ⟨.none, false, .strict⟩, bareSum, value_regrouped]
  · rw [same]
    intro equal
    have operations := congrArg Node.operation? equal
    revert operations
    decide
  · have resolved : View.resolve ⟨.none, false, .strict⟩ "$$x" false false =
        View.resolve ⟨.none, false, .strict⟩ "$x" false false := by decide +kernel
    exact congrArg (fun text => Except.ok (Fragment.plain text)) resolved
  · intro equal
    injection equal with names
    revert names
    decide
  · intro equal
    injection equal with _ _ lookup
    cases lookup
  · intro equal
    injection equal with _ units
    cases units
  · intro equal
    injection equal with expressions
    injection expressions with _ lists
    cases lists

end StylusToScss
