import StylusToScss.Proofs.Token.Moved
import StylusToScss.Proofs.Tree.Renumbered
import StylusToScss.Value.OfTokens

/-!
# Values elsewhere in a source

A value is read from its tokens alone: where they have been moved to, the same value is read, with
its lines raised (`Expression.moves_ofTokens`). The proofs follow the readers, by the same
recursion.
-/

namespace StylusToScss

variable {move : Move}

/-! ## Sites and readings -/

/-- The site of a value that has been moved. -/
def ValueSite.moved (move : Move) (site : ValueSite) : ValueSite :=
  ⟨site.line + move.lines, site.endLine + move.lines, move.column site.endLine site.endColumn⟩

theorem ValueSite.ofTokens_moved {tokens : List Token} (some : tokens ≠ []) (line : Nat) :
    ofTokens (tokens.map (·.moved move)) (line + move.lines) =
      (ofTokens tokens line).moved move := by
  unfold ofTokens
  rw [List.getLast?_map, List.getLast?_eq_some_getLast some]
  rfl

theorem ValueSite.fault_moved (site : ValueSite) (tokens : List Token) (cause : ParseFault)
    (still : move.Still) :
    (site.moved move).fault (tokens.map (·.moved move)) cause = site.fault tokens cause := by
  cases tokens with
  | nil => exact (site.fault [] cause).moved_still still
  | cons token rest => exact token.fault_moved still cause

/-- The second reading leaves the tokens that the first one leaves, moved, and gives its value,
raised. -/
inductive Taken.Moved {n : Nat} {α : Type} (move : Move) (raise : α → α)
    {tokens tokens' : List Token} : Taken n α tokens → Taken n α tokens' → Prop
  | mk (value : α) (rest : List Token) (le : rest.length + n ≤ tokens.length)
      (le' : (rest.map (·.moved move)).length + n ≤ tokens'.length) :
      Moved move raise ⟨value, rest, le⟩ ⟨raise value, rest.map (·.moved move), le'⟩

theorem Taken.Moved.of_eq {n : Nat} {α : Type} {raise : α → α} {tokens tokens' : List Token}
    {taken : Taken n α tokens} {taken' : Taken n α tokens'}
    (value : taken'.value = raise taken.value)
    (rest : taken'.rest = taken.rest.map (·.moved move)) : Taken.Moved move raise taken taken' := by
  obtain ⟨_, _, _⟩ := taken
  obtain ⟨_, _, _⟩ := taken'
  cases value
  cases rest
  exact .mk _ _ _ _

/-- A reading of tokens and one of the moved tokens. -/
abbrev MovesTo {n : Nat} {α : Type} {tokens tokens' : List Token} (move : Move) (raise : α → α)
    (x : ReadResult n α tokens) (x' : ReadResult n α tokens') : Prop :=
  Carries move.Still (Taken.Moved move raise) x x'

/-- A failure at the first of the tokens, or at the end of the value. -/
theorem MovesTo.fault {n : Nat} {α : Type} {raise : α → α} {tokens : List Token}
    (site : ValueSite) (cause : ParseFault) :
    MovesTo move raise (.error (site.fault tokens cause) : ReadResult n α tokens)
      (.error ((site.moved move).fault (tokens.map (·.moved move)) cause) :
        ReadResult n α (tokens.map (·.moved move))) :=
  fun still => congrArg Except.error (site.fault_moved tokens cause still)

/-! ## Marks -/

theorem important?_moved (tokens : List Token) : Option.Rel (Taken.Moved move id)
    (important? tokens) (important? (tokens.map (·.moved move))) := by
  match tokens with
  | [] | [_] => exact .none
  | bang :: word :: rest =>
    show Option.Rel _ (important? _) (important? (bang.moved move :: word.moved move :: _))
    rw [important?_cons_cons, important?_cons_cons, Token.touches_moved, Token.kind_moved,
      Token.kind_moved]
    by_cases important :
      (bang.kind == .bang && bang.touches word && word.kind.isWord "important") = true
    · rw [if_pos important, if_pos important]
      exact .some (.of_eq rfl rfl)
    · rw [if_neg important, if_neg important]
      exact .none

theorem operator?_moved (tokens : List Token) : Option.Rel (Taken.Moved move id)
    (operator? tokens) (operator? (tokens.map (·.moved move))) := by
  have single (token : Token) (rest rest' : List Token) (same : rest' = rest.map (·.moved move)) :
      Option.Rel (Taken.Moved move id)
        ((Operator.ofKind? token.kind).map (@Taken.first _ token rest))
        ((Operator.ofKind? token.kind).map (@Taken.first _ (token.moved move) rest')) := by
    cases Operator.ofKind? token.kind with
    | none => exact .none
    | some op => exact .some (.of_eq rfl same)
  match tokens with
  | [] => exact .none
  | [token] => exact single token [] [] rfl
  | token :: next :: rest =>
    show Option.Rel _ (operator? _) (operator? (token.moved move :: next.moved move :: _))
    rw [operator?_cons_cons, operator?_cons_cons, Token.kind_moved, Token.kind_moved]
    by_cases words : (token.kind.isWord "is" && next.kind.isWord "not") = true
    · rw [if_pos words, if_pos words]
      exact .some (.of_eq rfl rfl)
    · rw [if_neg words, if_neg words]
      exact single token (next :: rest) _ rfl

/-! ## Expressions -/

namespace Expression

variable {n : Nat}

theorem ofSequences_raised (first : Expression) (more : List Expression) (line : Nat) :
    ofSequences (first.raised n) (more.map (raised n)) (line + n) =
      (ofSequences first more line).raised n := by
  cases more with
  | nil => rfl
  | cons second more =>
    have nodes : ((first :: second :: more).map (raised n)).map Node.expression =
        renumberedNodes (· + n) ((first :: second :: more).map .expression) := by
      rw [renumberedNodes_eq_map, List.map_map, List.map_map]
      exact List.map_congr_left fun e _ => Node.renumbered_expression.symm
    exact congrArg (Expression.mk · true false (line + n)) nodes

theorem asArgument_raised (expression : Expression) :
    (expression.raised n).asArgument = expression.asArgument.raised n := by
  obtain ⟨nodes, isList, parenthesized, line⟩ := expression
  match nodes with
  | [] => rfl
  | [node] => cases parenthesized <;> rfl
  | _ :: _ :: _ => rfl

end Expression

/-! ## Readers -/

variable (site : ValueSite)

theorem moves_readClosing (tokens : List Token) : MovesTo move id (readClosing site tokens)
    (readClosing (site.moved move) (tokens.map (·.moved move))) := by
  match tokens with
  | [] => exact .fault site _
  | ⟨kind, span⟩ :: rest =>
    cases kind with
    | rightParen => exact .ok (.of_eq rfl rfl)
    | _ => exact .fault site _

theorem moves_readSeparator (tokens : List Token) : MovesTo move id (readSeparator site tokens)
    (readSeparator (site.moved move) (tokens.map (·.moved move))) := by
  match tokens with
  | [] => exact .fault site _
  | ⟨kind, span⟩ :: rest =>
    cases kind with
    | comma | rightParen => exact .ok (.of_eq rfl rfl)
    | _ => exact .fault site _

mutual

theorem moves_readList (tokens : List Token) : MovesTo move (Expression.raised move.lines)
    (readList site tokens) (readList (site.moved move) (tokens.map (·.moved move))) := by
  unfold readList
  refine (moves_readSequence tokens).bind ?_
  rintro _ _ ⟨first, rest, le, le'⟩
  refine (moves_readFurther rest).bind ?_
  rintro _ _ ⟨more, rest, -, -⟩
  exact .ok (.of_eq (Expression.ofSequences_raised _ _ _) rfl)
termination_by 16 * tokens.length + 7

theorem moves_readFurther (tokens : List Token) :
    MovesTo move (List.map (Expression.raised move.lines)) (readFurther site tokens)
      (readFurther (site.moved move) (tokens.map (·.moved move))) := by
  match tokens with
  | [] =>
    unfold readFurther
    exact .ok (.of_eq rfl rfl)
  | ⟨kind, span⟩ :: rest =>
    cases kind with
    | comma =>
      unfold readFurther
      refine (moves_readSequence rest).bind ?_
      rintro _ _ ⟨sequence, rest, le, le'⟩
      refine (moves_readFurther rest).bind ?_
      rintro _ _ ⟨more, rest, -, -⟩
      exact .ok (.of_eq rfl rfl)
    | _ =>
      unfold readFurther
      exact .ok (.of_eq rfl rfl)
termination_by 16 * tokens.length + 0

theorem moves_readSequence (tokens : List Token) : MovesTo move (Expression.raised move.lines)
    (readSequence site tokens) (readSequence (site.moved move) (tokens.map (·.moved move))) := by
  match tokens with
  | [] =>
    unfold readSequence
    exact .fault site _
  | token :: rest =>
    show MovesTo _ _ _ (readSequence _ (token.moved move :: _))
    unfold readSequence
    rw [Token.kind_moved]
    split
    · exact fun still => congrArg Except.error (token.fault_moved still _)
    · refine (moves_readBinary 0 (token :: rest)).bind ?_
      rintro _ _ ⟨first, behind, le, le'⟩
      have shorter : behind.length ≤ rest.length := Nat.le_of_succ_le_succ le
      refine (moves_readOperands behind).bind ?_
      rintro _ _ ⟨more, rest, -, -⟩
      exact .ok (.of_eq rfl rfl)
termination_by 16 * tokens.length + 6

theorem moves_readOperands (tokens : List Token) : MovesTo move (raisedNodes move.lines)
    (readOperands site tokens) (readOperands (site.moved move) (tokens.map (·.moved move))) := by
  match tokens with
  | [] =>
    unfold readOperands
    exact .ok (.of_eq rfl rfl)
  | token :: rest =>
    show MovesTo _ _ _ (readOperands _ (token.moved move :: _))
    unfold readOperands
    rw [Token.kind_moved]
    split
    · exact .ok (.of_eq rfl rfl)
    · refine (moves_readBinary 0 (token :: rest)).bind ?_
      rintro _ _ ⟨first, behind, le, le'⟩
      have shorter : behind.length ≤ rest.length := Nat.le_of_succ_le_succ le
      refine (moves_readOperands behind).bind ?_
      rintro _ _ ⟨more, rest, -, -⟩
      exact .ok (.of_eq rfl rfl)
termination_by 16 * tokens.length + 6

theorem moves_readBinary (least : Nat) (tokens : List Token) :
    MovesTo move (Node.raised move.lines) (readBinary site least tokens)
      (readBinary (site.moved move) least (tokens.map (·.moved move))) := by
  unfold readBinary
  refine (moves_readUnary tokens).bind ?_
  rintro _ _ ⟨first, rest, le, le'⟩
  refine (moves_readOperators least first rest).bind ?_
  rintro _ _ ⟨whole, rest, -, -⟩
  exact .ok (.of_eq rfl rfl)
termination_by 16 * tokens.length + 5

theorem moves_readOperators (least : Nat) (left : Node) (tokens : List Token) :
    MovesTo move (Node.raised move.lines) (readOperators site least left tokens)
      (readOperators (site.moved move) least (left.raised move.lines)
        (tokens.map (·.moved move))) := by
  unfold readOperators
  have operator := @operator?_moved move tokens
  revert operator
  generalize operator? tokens = found
  generalize operator? (tokens.map (·.moved move)) = found'
  rintro (@⟨_, _, ⟨op, rest, le, le'⟩⟩ | -)
  · simp only [id_eq]
    split
    · exact .ok (.of_eq rfl rfl)
    · refine (moves_readBinary op.rightPrecedence rest).bind ?_
      rintro _ _ ⟨right, behind, lr, lr'⟩
      refine (moves_readOperators least (.binary op.spelling left right site.line) behind).bind ?_
      rintro _ _ ⟨whole, rest, -, -⟩
      exact .ok (.of_eq rfl rfl)
  · exact .ok (.of_eq rfl rfl)
termination_by 16 * tokens.length + 0

theorem moves_readUnary (tokens : List Token) : MovesTo move (Node.raised move.lines)
    (readUnary site tokens) (readUnary (site.moved move) (tokens.map (·.moved move))) := by
  match tokens with
  | [] =>
    unfold readUnary
    exact .fault site _
  | token :: rest =>
    show MovesTo _ _ _ (readUnary _ (token.moved move :: _))
    have important := @important?_moved move (token :: rest)
    rw [List.map_cons] at important
    unfold readUnary
    revert important
    generalize important? (token :: rest) = found
    generalize important? (token.moved move :: _) = found'
    rintro (@⟨_, _, ⟨word, rest, le, le'⟩⟩ | -)
    · exact .ok (.of_eq rfl rfl)
    · rw [Token.kind_moved]
      cases token.kind.unarySpelling? with
      | some spelling =>
        refine (moves_readUnary rest).bind ?_
        rintro _ _ ⟨operand, rest, -, -⟩
        exact .ok (.of_eq rfl rfl)
      | none =>
        refine (moves_readPrimary token rest).bind ?_
        rintro _ _ ⟨primary, rest, -, -⟩
        exact .ok (.of_eq rfl rfl)
termination_by 16 * tokens.length + 4

theorem moves_readPrimary (token : Token) (rest : List Token) :
    MovesTo move (Node.raised move.lines) (readPrimary site token rest)
      (readPrimary (site.moved move) (token.moved move) (rest.map (·.moved move))) := by
  obtain ⟨kind, span⟩ := token
  unfold readPrimary
  cases kind with
  | number | string | url | atWord => exact .ok (.of_eq rfl rfl)
  | hash word =>
    show MovesTo _ _ (if isHexColor word then _ else _) (if isHexColor word then _ else _)
    split
    · exact .ok (.of_eq rfl rfl)
    · exact .ok (.of_eq rfl rfl)
  | ident name => exact moves_readName ⟨.ident name, span⟩ name rest
  | leftParen =>
    refine (moves_readList rest).bind ?_
    rintro _ _ ⟨inner, behind, le, le'⟩
    refine (moves_readClosing site behind).bind ?_
    rintro _ _ ⟨_, rest, -, -⟩
    exact .ok (.of_eq rfl rfl)
  | _ => exact fun still => congrArg Except.error (Token.fault_moved still ⟨_, span⟩ _)
termination_by 16 * rest.length + (16 + 3)

theorem moves_readName (token : Token) (name : String) (rest : List Token) :
    MovesTo move (Node.raised move.lines) (readName site token name rest)
      (readName (site.moved move) (token.moved move) name (rest.map (·.moved move))) := by
  unfold readName
  split
  · exact .ok (.of_eq rfl rfl)
  · split
    · exact .ok (.of_eq rfl rfl)
    · match rest with
      | [] => exact .ok (.of_eq rfl rfl)
      | ⟨kind, span⟩ :: after =>
        cases kind with
        | leftParen =>
          have touches := @Token.touches_moved move token ⟨.leftParen, span⟩
          show MovesTo _ _ (if token.touches ⟨.leftParen, span⟩ then _ else _)
            (if (token.moved move).touches (Token.moved move ⟨.leftParen, span⟩) then _ else _)
          rw [touches]
          split
          · refine (moves_readArguments after).bind ?_
            rintro _ _ ⟨arguments, rest, -, -⟩
            exact .ok (.of_eq rfl rfl)
          · exact .ok (.of_eq rfl rfl)
        | assign | conditionalAssign =>
          refine (moves_readSequence after).bind ?_
          rintro _ _ ⟨value, rest, -, -⟩
          exact .ok (.of_eq (congrArg (Node.bound name · _) Node.renumbered_expression.symm) rfl)
        | _ => exact .ok (.of_eq rfl rfl)
termination_by 16 * rest.length + (16 + 2)

theorem moves_readArguments (tokens : List Token) : MovesTo move (raisedNodes move.lines)
    (readArguments site tokens) (readArguments (site.moved move) (tokens.map (·.moved move))) := by
  have list := moves_readArgumentList tokens
  match tokens with
  | [] =>
    unfold readArguments
    exact list
  | ⟨kind, span⟩ :: rest =>
    cases kind with
    | rightParen =>
      unfold readArguments
      exact .ok (.of_eq rfl rfl)
    | _ =>
      unfold readArguments
      exact list
termination_by 16 * tokens.length + 10

theorem moves_readArgumentList (tokens : List Token) : MovesTo move (raisedNodes move.lines)
    (readArgumentList site tokens)
    (readArgumentList (site.moved move) (tokens.map (·.moved move))) := by
  unfold readArgumentList
  refine (moves_readArgument tokens).bind ?_
  rintro _ _ ⟨first, rest, le, le'⟩
  refine (moves_readSeparator site rest).bind ?_
  rintro _ _ ⟨separator, behind, ls, ls'⟩
  simp only [id_eq]
  split
  · refine (moves_readArgumentList behind).bind ?_
    rintro _ _ ⟨more, rest, -, -⟩
    exact .ok (.of_eq rfl rfl)
  · exact .ok (.of_eq rfl rfl)
termination_by 16 * tokens.length + 9

theorem moves_readArgument (tokens : List Token) : MovesTo move (Node.raised move.lines)
    (readArgument site tokens) (readArgument (site.moved move) (tokens.map (·.moved move))) := by
  have sequence : MovesTo move (Node.raised move.lines)
      (do
        let value ← readSequence site tokens
        return value.map Expression.asArgument)
      (do
        let value ← readSequence (site.moved move) (tokens.map (·.moved move))
        return value.map Expression.asArgument) := by
    refine (moves_readSequence tokens).bind ?_
    rintro _ _ ⟨value, rest, -, -⟩
    exact .ok (.of_eq (Expression.asArgument_raised value) rfl)
  match tokens with
  | [] =>
    unfold readArgument
    exact sequence
  | ⟨kind, span⟩ :: rest =>
    unfold readArgument
    cases kind with
    | ident name =>
      match rest with
      | [] => exact sequence
      | ⟨second, span'⟩ :: rest =>
        cases second with
        | colon =>
          refine (moves_readSequence rest).bind ?_
          rintro _ _ ⟨value, rest, -, -⟩
          exact .ok (.of_eq (congrArg (Node.bound name · _) Node.renumbered_expression.symm) rfl)
        | _ => exact sequence
    | _ => exact sequence
termination_by 16 * tokens.length + 8

end

/-- The value that moved tokens write is the one that the tokens write, with its lines raised. -/
theorem Expression.moves_ofTokens {tokens : List Token} (some : tokens ≠ []) (line : Nat) :
    Carries move.Still (fun e e' => e' = e.raised move.lines) (ofTokens tokens line)
      (ofTokens (tokens.map (·.moved move)) (line + move.lines)) := by
  unfold ofTokens
  rw [ValueSite.ofTokens_moved some]
  refine (moves_readList _ tokens).bind ?_
  rintro _ _ ⟨whole, rest, -, -⟩
  cases rest with
  | nil => exact .ok rfl
  | cons token rest => exact fun still => congrArg Except.error (token.fault_moved still _)

end StylusToScss
