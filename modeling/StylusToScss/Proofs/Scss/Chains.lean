import StylusToScss.Proofs.Statement.Clauses
import StylusToScss.Scss.Emitter

/-!
# Chains of alternatives

Alternatives are rendered one behind the other, and those that an alternative has of its own right
behind it. So the text of a conditional does not tell where in the tree a clause stands: `spliced`
brings all of them into one row, which is rendered in the same way. Such a row is what a source
gives, and `Emit.chain` renders it clause by clause.

* `Emit.alternatives_spliced`: splicing changes neither the text nor the state behind it.
* `Emit.visit_elseChain`: a conditional with a chain of clauses is rendered clause by clause.
* `elseChains_flat`: any conditional of any tree, and the conditionals of a source.
-/

namespace StylusToScss

/-! ## Splicing -/

/-- Alternatives, where those that an alternative has of its own stand directly behind it. -/
def spliced : List Node → List Node
  | [] => []
  | .conditional condition b others line :: rest =>
    .conditional condition b [] line :: (spliced others ++ spliced rest)
  | node :: rest => node :: spliced rest

/-- Behind splicing, no alternative has any of its own. -/
theorem alternatives_of_mem_spliced (nodes : List Node) :
    ∀ node ∈ spliced nodes, node.alternatives = [] := by
  fun_induction spliced nodes with
  | case1 => exact nofun
  | case2 condition b others line rest inner outer =>
    exact List.forall_mem_cons.2 ⟨rfl, List.forall_mem_append.2 ⟨inner, outer⟩⟩
  | case3 node rest other ih =>
    refine List.forall_mem_cons.2 ⟨?_, ih⟩
    cases node with
    | conditional condition b others line => exact absurd rfl (other condition b others line)
    | _ => rfl

namespace Emit

/-- Alternatives in two parts are rendered one part behind the other. -/
theorem alternatives_append (front back : List Node) :
    alternatives (front ++ back) = do
      let first ← alternatives front
      return first ++ (← alternatives back) := by
  induction front with
  | nil =>
    simp only [alternatives, List.nil_append, pure_bind, String.empty_append, bind_pure]
  | cons node rest ih =>
    cases node with
    | conditional condition b others line =>
      simp only [List.cons_append, alternatives, ih, bind_assoc, pure_bind, String.append_assoc]
    | block b =>
      simp only [List.cons_append, alternatives, ih, bind_assoc, pure_bind, String.append_assoc]
    | _ => rfl

/-- Whether a clause stands in the alternatives of the clause before it or behind them, it is
rendered at the same time and from the same state. -/
theorem alternatives_spliced (nodes : List Node) :
    alternatives (spliced nodes) = alternatives nodes := by
  fun_induction spliced nodes with
  | case1 => rfl
  | case2 condition b others line rest inner outer =>
    simp only [alternatives, alternatives_append, inner, outer, bind_assoc, pure_bind,
      String.append_assoc, String.empty_append]
  | case3 node rest other ih =>
    cases node with
    | conditional condition b others line => exact absurd rfl (other condition b others line)
    | block b => simp only [alternatives, ih]
    | _ => rfl

/-! ## Rendering a chain -/

/-- Render an alternative with a condition. -/
def clause (clause : Clause) : Emit String := do
  let _ ← place (.clause clause.line)
  let text ← value clause.condition
  let body ← block clause.block
  return " @else if " ++ text ++ body

/-- Render the last alternative, if there is one. -/
def lastClause : Option Block → Emit String
  | none => return ""
  | some b => do
    let _ ← place (.clause b.line)
    return " @else" ++ (← block b)

/-- Render a conditional, its clauses in order, and the last alternative. -/
def chain (condition : Node) (b : Block) (line : Nat) (clauses : List Clause)
    (last : Option Block) : Emit String := do
  let lead ← place (.statement line)
  let text ← value condition
  let body ← block b
  let texts ← clauses.mapM clause
  let ending ← lastClause last
  return lead ++ "@if " ++ text ++ body ++ (String.join texts ++ ending)

theorem alternatives_elseChain (clauses : List Clause) (last : Option Block) :
    alternatives (elseChain clauses last) = do
      let texts ← clauses.mapM clause
      return String.join texts ++ (← lastClause last) := by
  induction clauses with
  | nil =>
    cases last with
    | none => rfl
    | some b =>
      show alternatives [.block b] = _
      simp only [alternatives, lastClause, List.mapM_nil, pure_bind, bind_assoc, String.join_nil,
        String.empty_append, String.append_empty]
  | cons first clauses ih =>
    show alternatives (.conditional first.condition first.block [] first.line ::
      elseChain clauses last) = _
    simp only [alternatives, ih, List.mapM_cons, clause, bind_assoc, pure_bind, String.append_assoc,
      String.join_cons, String.empty_append]

/-- A conditional whose alternatives are a chain. -/
theorem visit_elseChain (condition : Node) (b : Block) (line : Nat) (clauses : List Clause)
    (last : Option Block) :
    visit (.conditional condition b (elseChain clauses last) line) =
      chain condition b line clauses last := by
  unfold chain
  simp only [visit, alternatives_elseChain, bind_assoc, pure_bind]

end Emit

/-- Chains of alternatives are flat. In any tree, whichever state a conditional is rendered from, it
comes to the same text or failure and to the same state if the alternatives of each of its
alternatives are spliced in behind it. In the tree of a source nothing is left to splice: each
conditional is followed by clauses without alternatives, on later and later lines, and by at most
one block, and is rendered as these in this order. -/
theorem elseChains_flat :
    (∀ condition block others line emitter,
      (Emit.visit (.conditional condition block others line)).runFrom emitter =
        (Emit.visit (.conditional condition block (spliced others) line)).runFrom emitter ∧
      ∀ alternative ∈ spliced others, alternative.alternatives = []) ∧
    ∀ source sheet, Stylesheet.ofSource source = .ok sheet → ∀ condition block others line,
      .conditional condition block others line ∈ statementsIn sheet.nodes →
      ∃ clauses last, others = elseChain clauses last ∧
        (line :: others.map Node.line).Pairwise (· < ·) ∧
        Emit.visit (.conditional condition block others line) =
          Emit.chain condition block line clauses last := by
  constructor
  · intro condition block others line emitter
    refine ⟨?_, alternatives_of_mem_spliced others⟩
    rw [Emit.visit, Emit.visit, Emit.alternatives_spliced]
  · intro source sheet read condition block others line mem
    obtain ⟨⟨clauses, last, rfl⟩, ascending⟩ := Stylesheet.isElseChain_ofSource read mem
    exact ⟨clauses, last, rfl, ascending, Emit.visit_elseChain _ _ _ _ _⟩

/-- A conditional in a block, with a clause and a last alternative. -/
theorem elseChains_flat_in_block : ∃ sheet condition block others,
    Stylesheet.ofSource "p\n  if a\n    b c\n  else if d\n    e f\n  else\n    g h\n" = .ok sheet ∧
    .conditional condition block others 2 ∈ statementsIn sheet.nodes ∧
    others.map Node.kind = ["If", "Block"] ∧
    ∃ clauses last, others = elseChain clauses last ∧
      Emit.visit (.conditional condition block others 2) =
        Emit.chain condition block 2 clauses last := by
  have chains : (Stylesheet.ofSource
      "p\n  if a\n    b c\n  else if d\n    e f\n  else\n    g h\n").toOption.map (fun sheet =>
        (statementsIn sheet.nodes).map fun node => (node.line, node.alternatives.map Node.kind)) =
      some [(1, []), (2, ["If", "Block"]), (3, []), (5, []), (7, [])] := by
    decide +kernel
  cases read : Stylesheet.ofSource _ with
  | error fault =>
    rw [read] at chains
    cases chains
  | ok sheet =>
    rw [read] at chains
    have mem : (2, ["If", "Block"]) ∈ (statementsIn sheet.nodes).map fun node =>
        (node.line, node.alternatives.map Node.kind) := by
      rw [show List.map _ _ = _ from Option.some.inj chains]
      exact .tail _ (.head _)
    obtain ⟨node, mem, same⟩ := List.mem_map.1 mem
    obtain ⟨number, kinds⟩ := Prod.mk.inj same
    cases node with
    | conditional condition block others line =>
      obtain rfl : line = 2 := number
      obtain ⟨clauses, last, chain, -, rendered⟩ :=
        elseChains_flat.2 _ sheet read condition block others 2 mem
      exact ⟨sheet, condition, block, others, rfl, mem, kinds, clauses, last, chain, rendered⟩
    | _ => cases kinds

end StylusToScss
