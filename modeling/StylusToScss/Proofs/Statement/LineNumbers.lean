import StylusToScss.Proofs.Statement.Line
import StylusToScss.Proofs.Token.Lines

/-!
# Lines of the tokens and lines of the tree

`lineNumbers` reads off the tokens on which lines of the source the logical lines start. It knows
nothing of statements, but for the lines that go with the one before them: the block under a rule
without counterpart, and the further lines of selectors, each behind a comma. The numbers ascend
(`pairwise_lineNumbers`). `nodeLines` reads off a tree on which lines its statements and clauses
start.
-/

namespace StylusToScss

variable {tokens rest line after : List Token} {token first : Token}

/-! ## Lines of tokens -/

/-- Whether the selectors of a line go on in the next one. A line that starts with an at-word has no
selectors. -/
def leadsOn (first : Token) (line : List Token) : Bool :=
  match first.kind with
  | .atWord _ => false
  | _ => endsWithComma (first :: line)

/-- The tokens behind a line and the block that is skipped with it, if the line is a rule without
counterpart. -/
def pastRule (first : Token) (after : List Token) : List Token :=
  match first.kind with
  | .atWord word => if word = "import" ∨ word = "require" then after else afterBlock after
  | _ => after

theorem length_pastRule (first : Token) (after : List Token) :
    (pastRule first after).length ≤ after.length := by
  unfold pastRule
  split
  · split
    · exact Nat.le_refl _
    · exact length_afterBlock after
  · exact Nat.le_refl _

/-- The lines of the source on which the logical lines start, up to the end of the input, without
those that hold nothing but semicolons, those of blocks that are skipped, and those of further
selectors. The first line is one of further selectors if it is `continued`. -/
def lineNumbers (continued : Bool) (tokens : List Token) : List Nat :=
  match tokens with
  | [] => []
  | token :: rest =>
    if token.kind = .endOfInput then []
    else if token.kind.endsLine then lineNumbers continued rest
    else
      match lineOf (token :: rest) with
      | [] => lineNumbers continued (afterLine rest)
      | first :: line =>
        if continued then lineNumbers (endsWithComma (first :: line)) (afterLine rest)
        else first.span.line ::
          lineNumbers (leadsOn first line) (pastRule first (afterLine rest))
termination_by tokens.length
decreasing_by
  · exact Nat.lt_succ_self _
  · exact Nat.lt_succ_of_le (length_afterLine rest)
  · exact Nat.lt_succ_of_le (length_afterLine rest)
  · exact Nat.lt_succ_of_le (Nat.le_trans (length_pastRule _ _) (length_afterLine rest))

theorem lineNumbers_of_endsLine (continued : Bool) (h : token.kind.endsLine = true)
    (more : token.kind ≠ .endOfInput) :
    lineNumbers continued (token :: rest) = lineNumbers continued rest := by
  rw [lineNumbers, if_neg more, if_pos h]

theorem lineNumbers_of_content (continued : Bool) (content : token.kind.endsLine = false) :
    lineNumbers continued (token :: rest) = match lineOf (token :: rest) with
      | [] => lineNumbers continued (afterLine rest)
      | first :: line =>
        if continued then lineNumbers (endsWithComma (first :: line)) (afterLine rest)
        else first.span.line ::
          lineNumbers (leadsOn first line) (pastRule first (afterLine rest)) := by
  rw [lineNumbers, if_neg (by rintro kind; rw [kind] at content; cases content),
    if_neg (by rw [content]; exact nofun)]

theorem lineNumbers_skipNewlines (continued : Bool) (tokens : List Token) :
    lineNumbers continued (skipNewlines tokens) = lineNumbers continued tokens := by
  induction tokens with
  | nil => rfl
  | cons token rest ih =>
    unfold skipNewlines at ih ⊢
    rw [List.dropWhile_cons]
    split
    · next newline =>
      have kind := beq_iff_eq.1 newline
      rw [ih, lineNumbers_of_endsLine continued (by rw [kind]; rfl) (by rw [kind]; rintro ⟨⟩)]
    · rfl

theorem lineNumbers_of_skipNewlines {next : List Token} (skipped : skipNewlines tokens = next)
    (continued : Bool) : lineNumbers continued tokens = lineNumbers continued next := by
  rw [← skipped, lineNumbers_skipNewlines]

theorem lineOf_cons (content : token.kind.endsLine = false) (rest : List Token) :
    lineOf (token :: rest) =
      withoutSemicolons (token :: rest.takeWhile fun token => !token.kind.endsLine) := by
  rw [lineOf, List.takeWhile_cons]
  exact if_pos (congrArg (!·) content) ▸ rfl

/-- A line that is not empty starts with its first token. -/
theorem content_of_lineOf (h : lineOf tokens ≠ []) :
    ∃ token rest, tokens = token :: rest ∧ token.kind.endsLine = false := by
  cases tokens with
  | nil => exact absurd rfl h
  | cons token rest =>
    refine ⟨token, rest, rfl, ?_⟩
    cases content : token.kind.endsLine with
    | false => rfl
    | true =>
      refine absurd ?_ h
      rw [lineOf, List.takeWhile_cons_of_neg]
      · rfl
      · simp [content]

theorem lineNumbers_semicolons (content : token.kind.endsLine = false)
    (here : lineOf (token :: rest) = []) (continued : Bool) :
    lineNumbers continued (token :: rest) = lineNumbers continued (afterLine rest) := by
  rw [lineNumbers_of_content _ content, here]

theorem lineNumbers_line (content : token.kind.endsLine = false)
    (here : lineOf (token :: rest) = first :: line) :
    lineNumbers false (token :: rest) = first.span.line ::
      lineNumbers (leadsOn first line) (pastRule first (afterLine rest)) := by
  rw [lineNumbers_of_content _ content, here]
  rfl

theorem lineNumbers_continued (here : lineOf tokens ≠ []) :
    lineNumbers true tokens = lineNumbers (endsWithComma (lineOf tokens)) (afterLine tokens) := by
  obtain ⟨token, rest, rfl, content⟩ := content_of_lineOf here
  obtain ⟨first, line, here⟩ := List.exists_cons_of_ne_nil here
  rw [lineNumbers_of_content _ content, here, afterLine_cons content]
  rfl

/-! ## They ascend -/

theorem pastRule_suffix (first : Token) (after : List Token) : pastRule first after <:+ after := by
  unfold pastRule
  split
  · split
    · exact List.suffix_rfl
    · exact afterBlock_suffix after
  · exact List.suffix_rfl

theorem withoutSemicolons_isPrefix (line : List Token) : withoutSemicolons line <+: line := by
  rw [← List.reverse_suffix, withoutSemicolons, List.reverse_reverse]
  exact List.dropWhile_suffix _

theorem lineOf_isPrefix (tokens : List Token) : lineOf tokens <+: tokens :=
  (withoutSemicolons_isPrefix _).trans (List.takeWhile_prefix _)

/-- A line without the semicolons at its end starts as the line does. -/
theorem eq_of_lineOf (here : lineOf (token :: rest) = first :: line) : first = token := by
  have isPrefix := lineOf_isPrefix (token :: rest)
  rw [here] at isPrefix
  exact (List.cons_prefix_cons.1 isPrefix).1

/-- Each of the numbers is the line of a token that stands on a logical line. -/
theorem mem_lineNumbers {continued : Bool} {number : Nat}
    (h : number ∈ lineNumbers continued tokens) :
    ∃ token ∈ tokens, token.kind.endsLine = false ∧ token.span.line = number := by
  have wider {part whole : List Token} (suffix : part <:+ whole)
      (found : ∃ token ∈ part, token.kind.endsLine = false ∧ token.span.line = number) :
      ∃ token ∈ whole, token.kind.endsLine = false ∧ token.span.line = number := by
    obtain ⟨token, mem, content⟩ := found
    exact ⟨token, suffix.subset mem, content⟩
  fun_induction lineNumbers continued tokens with
  | case1 | case2 => cases h
  | case3 continued token rest _ _ ih => exact wider (List.suffix_cons _ _) (ih h)
  | case4 continued token rest _ _ _ ih =>
    exact wider ((afterLine_suffix rest).trans (List.suffix_cons _ _)) (ih h)
  | case5 token rest _ _ first line _ ih =>
    exact wider ((afterLine_suffix rest).trans (List.suffix_cons _ _)) (ih h)
  | case6 continued token rest _ content first line here _ ih =>
    have content := Bool.eq_false_iff.2 content
    rcases List.mem_cons.1 h with rfl | h
    · rw [eq_of_lineOf here]
      exact ⟨token, .head _, content, rfl⟩
    · have suffix := (pastRule_suffix first _).trans (afterLine_suffix rest)
      exact wider (suffix.trans (List.suffix_cons _ _)) (ih h)

/-- Where each line starts behind the one before it, so do those that are counted. -/
theorem pairwise_lineNumbers (continued : Bool) (h : Rising tokens) :
    (lineNumbers continued tokens).Pairwise (· < ·) := by
  fun_induction lineNumbers continued tokens with
  | case1 | case2 => exact .nil
  | case3 continued token rest _ _ ih => exact ih h.2
  | case4 continued token rest _ _ _ ih => exact ih (h.2.suffix (afterLine_suffix rest))
  | case5 token rest _ _ first line _ ih => exact ih (h.2.suffix (afterLine_suffix rest))
  | case6 continued token rest _ content first line here _ ih =>
    have content := Bool.eq_false_iff.2 content
    have past := pastRule_suffix first (afterLine rest)
    refine .cons ?_ (ih (h.2.suffix (past.trans (afterLine_suffix rest))))
    intro number hn
    obtain ⟨later, mem, standing, rfl⟩ := mem_lineNumbers hn
    rw [eq_of_lineOf here]
    exact h.1 content later (past.subset mem) standing

/-! ## Lines of the tree -/

mutual

/-- The lines of a statement and of all statements and clauses in it. A group counts with the line
of its block. -/
def Node.lines : Node → List Nat
  | .group _ ⟨nodes, line⟩ => line :: nodeLines nodes
  | .block ⟨nodes, line⟩ => line :: nodeLines nodes
  | .conditional _ ⟨nodes, _⟩ alternatives line =>
    line :: (nodeLines nodes ++ nodeLines alternatives)
  | .loop _ _ _ ⟨nodes, _⟩ line => line :: nodeLines nodes
  | .definition _ _ ⟨nodes, _⟩ line => line :: nodeLines nodes
  | .binding _ (.definition _ _ ⟨nodes, _⟩ _) _ _ line => line :: nodeLines nodes
  | node => [node.line]

/-- The lines of statements, or of the clauses of a conditional, and of all in them. -/
def nodeLines : List Node → List Nat
  | [] => []
  | node :: rest => node.lines ++ nodeLines rest

end

section
variable {selectors : List Selector} {block : Block} {condition : Node} {alternatives : List Node}
  {name : String} {number : Nat}

theorem Node.lines_group :
    (Node.group selectors block).lines = block.line :: nodeLines block.nodes := by
  cases block
  rfl

theorem Node.lines_block : (Node.block block).lines = block.line :: nodeLines block.nodes := by
  cases block
  rfl

theorem Node.lines_conditional : (Node.conditional condition block alternatives number).lines =
    number :: (nodeLines block.nodes ++ nodeLines alternatives) := by
  cases block
  rfl

theorem Node.lines_loop {key : Option String} {source : Expression} :
    (Node.loop name key source block number).lines = number :: nodeLines block.nodes := by
  cases block
  rfl

theorem Node.lines_definition {params : Arguments} :
    (Node.definition name params block number).lines = number :: nodeLines block.nodes := by
  cases block
  rfl

end

theorem nodeLines_append (a b : List Node) : nodeLines (a ++ b) = nodeLines a ++ nodeLines b := by
  induction a with
  | nil => rfl
  | cons node rest ih =>
    show node.lines ++ nodeLines (rest ++ b) = _
    rw [ih, ← List.append_assoc]
    rfl

end StylusToScss
