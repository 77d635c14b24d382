import StylusToScss.Proofs.Statement.Numbering

/-!
# The clauses of a conditional

The alternatives of a conditional may be any nodes, and conditionals among them may have
alternatives of their own. Reading a source gives only chains: conditionals without alternatives,
and at most one block, at the end (`elseChain`). This holds of every conditional of the source, in
whatever block it stands, and each clause stands on a later line than the one before it
(`Stylesheet.isElseChain_ofSource`). The proof follows the readers of statements.
-/

namespace StylusToScss

variable {source : String}

/-! ## Chains -/

/-- An alternative with a condition. -/
structure Clause where
  condition : Node
  block : Block
  line : Nat

/-- The conditional that a clause is in the tree. It has no alternatives. -/
def Clause.node (clause : Clause) : Node :=
  .conditional clause.condition clause.block [] clause.line

/-- Clauses in order, and the block that is taken if none of them is, if there is one. -/
def elseChain (clauses : List Clause) (last : Option Block) : List Node :=
  clauses.map Clause.node ++ last.toList.map Node.block

/-- The alternatives of a conditional. Other nodes have none. -/
def Node.alternatives : Node → List Node
  | .conditional _ _ alternatives _ => alternatives
  | _ => []

/-- The nodes are a chain of clauses. -/
def IsElseChain (nodes : List Node) : Prop := ∃ clauses last, nodes = elseChain clauses last

namespace IsElseChain

theorem nil : IsElseChain [] := ⟨[], none, rfl⟩

theorem last (block : Block) : IsElseChain [.block block] := ⟨[], some block, rfl⟩

theorem cons {nodes : List Node} (h : IsElseChain nodes) (condition : Node) (block : Block)
    (number : Nat) : IsElseChain (.conditional condition block [] number :: nodes) := by
  obtain ⟨clauses, last, rfl⟩ := h
  exact ⟨⟨condition, block, number⟩ :: clauses, last, rfl⟩

end IsElseChain

/-! ## Statements in blocks -/

mutual

/-- The statements in the blocks of a statement or clause, and in the blocks of those. -/
def Node.within : Node → List Node
  | .group _ ⟨nodes, _⟩ => nodes ++ withinEach nodes
  | .block ⟨nodes, _⟩ => nodes ++ withinEach nodes
  | .conditional _ ⟨nodes, _⟩ alternatives _ =>
    nodes ++ withinEach nodes ++ withinEach alternatives
  | .loop _ _ _ ⟨nodes, _⟩ _ => nodes ++ withinEach nodes
  | .definition _ _ ⟨nodes, _⟩ _ => nodes ++ withinEach nodes
  | .binding _ (.definition _ _ ⟨nodes, _⟩ _) _ _ _ => nodes ++ withinEach nodes
  | _ => []

/-- The statements in the blocks of each of the nodes, and in the blocks of those. -/
def withinEach : List Node → List Node
  | [] => []
  | node :: rest => node.within ++ withinEach rest

end

/-- Statements, and all that stand in their blocks. -/
def statementsIn (nodes : List Node) : List Node := nodes ++ withinEach nodes

section
variable {selectors : List Selector} {block : Block} {condition : Node} {alternatives : List Node}
  {name : String} {number : Nat}

theorem Node.within_group : (Node.group selectors block).within = statementsIn block.nodes := by
  cases block
  rfl

theorem Node.within_block : (Node.block block).within = statementsIn block.nodes := by
  cases block
  rfl

theorem Node.within_conditional : (Node.conditional condition block alternatives number).within =
    statementsIn block.nodes ++ withinEach alternatives := by
  cases block
  rfl

theorem Node.within_loop {key : Option String} {source : Expression} :
    (Node.loop name key source block number).within = statementsIn block.nodes := by
  cases block
  rfl

theorem Node.within_definition {params : Arguments} :
    (Node.definition name params block number).within = statementsIn block.nodes := by
  cases block
  rfl

end

theorem withinEach_append (a b : List Node) :
    withinEach (a ++ b) = withinEach a ++ withinEach b := by
  induction a with
  | nil => rfl
  | cons node rest ih =>
    show node.within ++ withinEach (rest ++ b) = _
    rw [ih, ← List.append_assoc]
    rfl

/-- All conditionals among the nodes have chains of clauses. -/
def AreChained (nodes : List Node) : Prop := ∀ node ∈ nodes, IsElseChain node.alternatives

namespace AreChained

variable {a b : List Node} {node : Node}

theorem append (ha : AreChained a) (hb : AreChained b) : AreChained (a ++ b) :=
  List.forall_mem_append.2 ⟨ha, hb⟩

theorem statementsIn_append (ha : AreChained (statementsIn a)) (hb : AreChained (statementsIn b)) :
    AreChained (statementsIn (a ++ b)) := by
  obtain ⟨hereA, withinA⟩ := List.forall_mem_append.1 ha
  obtain ⟨hereB, withinB⟩ := List.forall_mem_append.1 hb
  rw [statementsIn, withinEach_append]
  exact (append hereA hereB).append (append withinA withinB)

theorem cons (here : IsElseChain node.alternatives) (h : AreChained node.within) :
    AreChained (node :: node.within) :=
  List.forall_mem_cons.2 ⟨here, h⟩

/-- A node that is no conditional and has no block. -/
theorem blockless (h : node.alternatives = [] ∧ node.within = []) :
    AreChained (node :: node.within) := by
  refine cons ?_ ?_
  · rw [h.1]
    exact .nil
  · rw [h.2]
    exact nofun

end AreChained

/-! ## Reading -/

/-- What is read of a line alone is no conditional and has no block. -/
abbrev Blockless (x : Read Node) : Prop :=
  Yields (fun node => node.alternatives = [] ∧ node.within = []) (fun _ => True) x

theorem blockless_readImport (first : Token) (rest : List Token) (number : Nat) :
    Blockless (readImport source first rest number) := by
  unfold readImport
  split
  · trivial
  · split
    · exact ⟨rfl, rfl⟩
    · exact (Yields.any _).bind fun text _ => ⟨rfl, rfl⟩

theorem blockless_readAssignment (name : String) (op : Token) (value : List Token) (number : Nat) :
    Blockless (readAssignment name op value number) :=
  (Yields.any _).bind fun _ _ => ⟨rfl, rfl⟩

theorem blockless_readExpression (tokens : List Token) (first : Token) (number : Nat) :
    Blockless (readExpression tokens first number) :=
  (Yields.any _).bind fun _ _ => ⟨rfl, rfl⟩

theorem blockless_propertyOf (name value : List Token) (anchor : Token) (number : Nat) :
    Blockless (propertyOf source name value anchor number) :=
  (Yields.any _).bind fun _ _ => (Yields.any _).bind fun _ _ =>
    (Yields.any _).bind fun _ _ => (Yields.any _).bind fun _ _ => ⟨rfl, rfl⟩

theorem blockless_readProperty (tokens : List Token) (number : Nat) :
    Blockless (readProperty source tokens number) := by
  unfold readProperty
  refine (Yields.any _).bind fun first _ => ?_
  simp only
  split
  · split
    · trivial
    · refine (Yields.any _).bind fun anchor _ => (Yields.any _).bind fun name _ => ?_
      refine (Yields.any _).bind fun value _ => ?_
      split
      · exact (Yields.any _).bind fun text _ => trivial
      · exact blockless_propertyOf name value anchor number
  · split
    · exact blockless_readExpression tokens first number
    · refine (Yields.any _).bind fun continues _ => ?_
      split
      · exact blockless_readExpression tokens first number
      · refine (Yields.any _).bind fun name _ => (Yields.any _).bind fun value _ => ?_
        exact (Yields.any _).bind fun anchor _ => blockless_propertyOf name value anchor number

/-- A reading yields something good. -/
abbrev Obtains {n : Nat} {α : Type} {tokens : List Token} (good : α → Prop)
    (x : ReadResult n α tokens) : Prop :=
  Yields (fun taken => good taken.value) (fun _ => True) x

mutual

theorem chained_readBody (tokens : List Token) :
    Obtains (fun nodes => AreChained (statementsIn nodes)) (readBody source tokens) := by
  unfold readBody
  split
  · exact nofun
  · next token rest some =>
    have less := length_of_skipNewlines some
    split
    · exact nofun
    · trivial
    · exact nofun
    · refine (chained_readStatement token rest).bind fun statement hs => ?_
      have := statement.rest_le
      exact (chained_readBody statement.rest).bind fun more hm => hs.statementsIn_append hm
termination_by 16 * tokens.length + 9

theorem chained_readBlock (number : Nat) (tokens : List Token) :
    Obtains (fun block => AreChained (statementsIn block.nodes))
      (readBlock source number tokens) := by
  unfold readBlock
  split
  · trivial
  · next token rest some =>
    have less := length_of_skipNewlines some
    split
    · exact (chained_readBody rest).bind fun body hb => hb
    · trivial
termination_by 16 * tokens.length + 1

theorem chained_readStatement (first : Token) (rest : List Token) :
    Obtains (fun node => AreChained (statementsIn node.toList))
      (readStatement source first rest) := by
  unfold readStatement
  split
  · exact nofun
  · next start line _ =>
    have := length_afterLine rest
    refine (chained_readNode start line (afterLine rest)).bind fun node hn => ?_
    show AreChained (node.value :: (node.value.within ++ []))
    rwa [List.append_nil]
termination_by 16 * rest.length + (16 + 8)

theorem chained_readNode (first : Token) (line after : List Token) :
    Obtains (fun node => AreChained (node :: node.within)) (readNode source first line after) := by
  unfold readNode
  simp only
  split
  · split
    · exact (blockless_readImport first line _).bind fun node hn => .blockless hn
    · exact .blockless ⟨rfl, rfl⟩
  · exact chained_readConditional first line after
  · exact chained_readConditional first line after
  · trivial
  · refine (Yields.any _).bind fun head _ => ?_
    refine (chained_readBlock _ after).bind fun block hb => .cons .nil ?_
    show AreChained (Node.loop _ _ _ _ _).within
    rwa [Node.within_loop]
  · exact (Yields.any _).bind fun value _ => .blockless ⟨rfl, rfl⟩
  · exact chained_readDeclaration first line after
termination_by 16 * after.length + 7

theorem chained_readConditional (keyword : Token) (line after : List Token) :
    Obtains (fun node => AreChained (node :: node.within))
      (readConditional source keyword line after) := by
  unfold readConditional
  refine (Yields.any _).bind fun condition _ => ?_
  refine (chained_readBlock _ after).bind fun block hb => ?_
  have := block.rest_lt
  refine (chained_readAlternatives block.rest).bind fun alternatives ⟨isChain, ha⟩ => ?_
  refine .cons isChain ?_
  show AreChained (Node.conditional _ _ _ _).within
  rw [Node.within_conditional]
  exact AreChained.append hb ha
termination_by 16 * after.length + 6

theorem chained_readAlternatives (tokens : List Token) :
    Obtains (fun nodes => IsElseChain nodes ∧ AreChained (withinEach nodes))
      (readAlternatives source tokens) := by
  unfold readAlternatives
  split
  · exact ⟨.nil, nofun⟩
  · next word rest some =>
    have := length_afterLine rest
    have := length_of_skipNewlines some
    split
    · refine (Yields.any _).bind fun head _ => ?_
      simp only
      split
      · refine (chained_readBlock _ (afterLine rest)).bind fun block hb => ⟨.last _, ?_⟩
        show AreChained ((Node.block block.value).within ++ [])
        rwa [List.append_nil, Node.within_block]
      · next keyword line _ =>
        split
        · refine (Yields.any _).bind fun condition _ => ?_
          refine (chained_readBlock _ (afterLine rest)).bind fun block hb => ?_
          have := block.rest_lt
          refine (chained_readAlternatives block.rest).bind fun more ⟨isChain, hm⟩ => ?_
          refine ⟨isChain.cons _ _ _, ?_⟩
          show AreChained ((Node.conditional _ _ [] _).within ++ withinEach more.value)
          rw [Node.within_conditional]
          refine AreChained.append (AreChained.append hb ?_) hm
          exact fun _ none => absurd none List.not_mem_nil
        · trivial
    · exact ⟨.nil, nofun⟩
termination_by 16 * tokens.length + 5

theorem chained_readDeclaration (first : Token) (line after : List Token) :
    Obtains (fun node => AreChained (node :: node.within))
      (readDeclaration source first line after) := by
  unfold readDeclaration
  simp only
  split
  · exact (blockless_readAssignment _ _ _ _).bind fun node hn => .blockless hn
  · exact (blockless_readAssignment _ _ _ _).bind fun node hn => .blockless hn
  · split
    · split
      · refine (Yields.any _).bind fun inside _ => (Yields.any _).bind fun params _ => ?_
        refine (chained_readBlock _ after).bind fun block hb => .cons .nil ?_
        show AreChained (Node.definition _ _ _ _).within
        rwa [Node.within_definition]
      · exact chained_readGroup _ _ after
    · split
      · exact (blockless_readExpression _ _ _).bind fun node hn => .blockless hn
      · split
        · exact chained_readGroup _ _ after
        · exact (blockless_readProperty _ _).bind fun node hn => .blockless hn
termination_by 16 * after.length + 4

theorem chained_readGroup (number : Nat) (line after : List Token) :
    Obtains (fun node => AreChained (node :: node.within)) (readGroup source number line after) := by
  unfold readGroup
  refine (Yields.any _).bind fun selectors _ => ?_
  have := selectors.rest_le
  refine (chained_readBlock number selectors.rest).bind fun block hb => .cons .nil ?_
  show AreChained (Node.group _ _).within
  rwa [Node.within_group]
termination_by 16 * after.length + 3

end

theorem chained_readStatements (tokens : List Token) :
    Yields (fun nodes => AreChained (statementsIn nodes)) (fun _ => True)
      (readStatements source tokens) := by
  unfold readStatements
  split
  · exact nofun
  · next token rest some =>
    have less := length_of_skipNewlines some
    split
    · exact nofun
    · trivial
    · exact chained_readStatements rest
    · refine (chained_readStatement token rest).bind fun statement hs => ?_
      have := statement.rest_le
      exact (chained_readStatements statement.rest).bind fun more hm => hs.statementsIn_append hm
termination_by tokens.length

/-! ## The lines of clauses -/

/-- The lines of each of the nodes are among those of all of them. -/
theorem lines_sublist_nodeLines {nodes : List Node} {node : Node} (mem : node ∈ nodes) :
    node.lines.Sublist (nodeLines nodes) := by
  obtain ⟨front, back, rfl⟩ := List.append_of_mem mem
  rw [nodeLines_append, nodeLines]
  exact (List.sublist_append_left _ _).trans (List.sublist_append_right _ _)

theorem lines_sublist_of_within {nodes : List Node}
    (within : ∀ node ∈ withinEach nodes, node.lines.Sublist (nodeLines nodes)) :
    ∀ node ∈ statementsIn nodes, node.lines.Sublist (nodeLines nodes) := by
  intro node mem
  rcases List.mem_append.1 mem with mem | mem
  · exact lines_sublist_nodeLines mem
  · exact within node mem

mutual

/-- The lines of what stands in the blocks of a statement are among its own. -/
theorem lines_within : ∀ node : Node, ∀ other ∈ node.within, other.lines.Sublist node.lines
  | .group _ ⟨nodes, _⟩, other, mem | .block ⟨nodes, _⟩, other, mem
  | .loop _ _ _ ⟨nodes, _⟩ _, other, mem | .definition _ _ ⟨nodes, _⟩ _, other, mem
  | .binding _ (.definition _ _ ⟨nodes, _⟩ _) _ _ _, other, mem =>
    (lines_sublist_of_within (lines_withinEach nodes) other mem).cons _
  | .conditional _ ⟨nodes, _⟩ alternatives _, other, mem => by
    refine .cons _ ?_
    rcases List.mem_append.1 mem with mem | mem
    · exact (lines_sublist_of_within (lines_withinEach nodes) other mem).trans
        (List.sublist_append_left _ _)
    · exact (lines_withinEach alternatives other mem).trans (List.sublist_append_right _ _)

theorem lines_withinEach : ∀ nodes : List Node, ∀ other ∈ withinEach nodes,
    other.lines.Sublist (nodeLines nodes)
  | node :: rest, other, mem => by
    rcases List.mem_append.1 mem with mem | mem
    · exact (lines_within node other mem).trans (List.sublist_append_left _ _)
    · exact (lines_withinEach rest other mem).trans (List.sublist_append_right _ _)

end

theorem lines_statementsIn (nodes : List Node) :
    ∀ node ∈ statementsIn nodes, node.lines.Sublist (nodeLines nodes) :=
  lines_sublist_of_within (lines_withinEach nodes)

/-- Each clause counts with its line. -/
theorem lines_elseChain (clauses : List Clause) (last : Option Block) :
    ((elseChain clauses last).map Node.line).Sublist (nodeLines (elseChain clauses last)) := by
  induction clauses with
  | nil =>
    cases last with
    | none => exact .slnil
    | some block =>
      show [block.line].Sublist ((Node.block block).lines ++ [])
      rw [Node.lines_block]
      exact (List.nil_sublist _).cons_cons _
  | cons clause clauses ih =>
    show (clause.line :: (elseChain clauses last).map Node.line).Sublist
      (clause.node.lines ++ nodeLines (elseChain clauses last))
    rw [Clause.node, Node.lines_conditional]
    exact (ih.trans (List.sublist_append_right _ _)).cons_cons _

/-- The alternatives of a conditional of a source are a chain of clauses, wherever the conditional
stands, and each of them stands on a later line than the one before it. -/
theorem Stylesheet.isElseChain_ofSource {sheet : Stylesheet} (h : ofSource source = .ok sheet)
    {condition : Node} {block : Block} {others : List Node} {number : Nat}
    (mem : .conditional condition block others number ∈ statementsIn sheet.nodes) :
    IsElseChain others ∧ (number :: others.map Node.line).Pairwise (· < ·) := by
  unfold ofSource at h
  split at h
  · next tokens cut =>
    have addressed := addressed_of_isCut fun token ht => ⟨source, tokens, cut, ht⟩
    have read : Yields (fun sheet => AreChained (statementsIn sheet.nodes) ∧
        nodeLines sheet.nodes = lineNumbers false tokens) (fun _ => True)
        (ofTokens source tokens) :=
      ((chained_readStatements tokens).and (counts_readStatements tokens addressed)).bind
        fun nodes hn => hn
    obtain ⟨chained, lines⟩ := read.of_eq_ok h
    obtain ⟨clauses, last, rfl⟩ := chained _ mem
    refine ⟨⟨clauses, last, rfl⟩, ?_⟩
    have ascending := pairwise_lineNumbers false (rising_of_tokenize cut)
    rw [← lines] at ascending
    refine ascending.sublist (List.Sublist.trans ?_ (lines_statementsIn sheet.nodes _ mem))
    rw [Node.lines_conditional]
    exact ((lines_elseChain clauses last).trans (List.sublist_append_right _ _)).cons_cons _
  · cases h

end StylusToScss
