import StylusToScss.Proofs.Except
import StylusToScss.Proofs.Tree.Shape
import StylusToScss.Value.OfTokens

/-!
# What the readers of values yield

Whatever the tokens are, a reader of values yields nodes that can be written as values, or a failure
that the tokens are to blame for. The proofs follow the readers, by the same recursion.

* `Expression.yields_ofTokens`: this of a whole value.
-/

namespace StylusToScss

/-- The failure is that of the source, not of a reader that asks for what is not there. -/
def Located.Declared (fault : Located ParseFault) : Prop := fault.cause ≠ .outOfRange

variable {may : Leeway}

/-! ## Expressions -/

theorem Expression.isValue_ofSequences {first : Expression} {more : List Expression} {line : Nat}
    (hf : first.IsValue may) (hm : ∀ e ∈ more, e.IsValue may) :
    (ofSequences first more line).IsValue may := by
  unfold ofSequences
  split
  · exact hf
  · apply areValues_iff.2
    intro node hn
    obtain ⟨e, he, rfl⟩ := List.mem_map.1 hn
    rcases List.mem_cons.1 he with rfl | he
    · exact Node.isValue_expression.2 hf
    · exact Node.isValue_expression.2 (hm e he)

theorem Expression.isValue_asArgument {expression : Expression} (h : expression.IsValue may) :
    expression.asArgument.IsValue may := by
  obtain ⟨nodes, isList, parenthesized, line⟩ := expression
  unfold asArgument
  split
  · next node single =>
    split
    · exact h
    · cases single
      exact h.1
  · exact h

/-! ## Readers -/

variable (site : ValueSite)

theorem ValueSite.declared_fault {tokens : List Token} {cause : ParseFault}
    (h : cause ≠ .outOfRange) : (site.fault tokens cause).Declared := by
  cases tokens <;> exact h

theorem yields_readClosing (tokens : List Token) :
    Yields (fun _ => True) Located.Declared (readClosing site tokens) := by
  unfold readClosing
  split
  · trivial
  · exact site.declared_fault (by simp)

theorem yields_readSeparator (tokens : List Token) :
    Yields (fun _ => True) Located.Declared (readSeparator site tokens) := by
  unfold readSeparator
  split
  · trivial
  · trivial
  · exact site.declared_fault (by simp)

mutual

theorem yields_readList (tokens : List Token) :
    Yields (·.value.IsValue may) Located.Declared (readList site tokens) := by
  unfold readList
  refine (yields_readSequence tokens).bind fun first hf => ?_
  have := first.rest_lt
  refine (yields_readFurther first.rest).bind fun more hm => ?_
  exact Expression.isValue_ofSequences hf hm
termination_by 16 * tokens.length + 7

theorem yields_readFurther (tokens : List Token) :
    Yields (fun taken => ∀ e ∈ taken.value, e.IsValue may) Located.Declared
      (readFurther site tokens) := by
  unfold readFurther
  generalize here : tokens = text
  split
  · next rest =>
    have less : rest.length < tokens.length := by simp [here]
    refine (yields_readSequence rest).bind fun sequence hs => ?_
    have := sequence.rest_lt
    refine (yields_readFurther sequence.rest).bind fun more hm => ?_
    rintro e (_ | ⟨_, he⟩)
    · exact hs
    · exact hm e he
  · exact fun _ he => nomatch he
termination_by 16 * tokens.length + 0

theorem yields_readSequence (tokens : List Token) :
    Yields (·.value.IsValue may) Located.Declared (readSequence site tokens) := by
  unfold readSequence
  split
  · exact site.declared_fault (by simp)
  · next token rest =>
    split
    · rintro ⟨⟩
    · refine (yields_readBinary 0 (token :: rest)).bind fun first hf => ?_
      have := first.rest_lt
      refine (yields_readOperands first.rest).bind fun more hm => ?_
      exact ⟨hf, hm⟩
termination_by 16 * tokens.length + 6

theorem yields_readOperands (tokens : List Token) :
    Yields (AreValues may ·.value) Located.Declared (readOperands site tokens) := by
  unfold readOperands
  split
  · trivial
  · next token rest =>
    split
    · trivial
    · refine (yields_readBinary 0 (token :: rest)).bind fun first hf => ?_
      have := first.rest_lt
      refine (yields_readOperands first.rest).bind fun more hm => ?_
      exact ⟨hf, hm⟩
termination_by 16 * tokens.length + 6

theorem yields_readBinary (least : Nat) (tokens : List Token) :
    Yields (·.value.IsValue may) Located.Declared (readBinary site least tokens) := by
  unfold readBinary
  refine (yields_readUnary tokens).bind fun first hf => ?_
  have := first.rest_lt
  exact (yields_readOperators least hf first.rest).bind fun whole hw => hw
termination_by 16 * tokens.length + 5

theorem yields_readOperators (least : Nat) {left : Node} (hl : left.IsValue may)
    (tokens : List Token) :
    Yields (·.value.IsValue may) Located.Declared (readOperators site least left tokens) := by
  unfold readOperators
  split
  · exact hl
  · next op _ =>
    split
    · exact hl
    · have := op.rest_lt
      refine (yields_readBinary op.value.rightPrecedence op.rest).bind fun right hr => ?_
      have := right.rest_lt
      have both : (Node.binary op.value.spelling left right.value site.line).IsValue may := ⟨hl, hr⟩
      exact (yields_readOperators least both right.rest).bind fun whole hw => hw
termination_by 16 * tokens.length + 0

theorem yields_readUnary (tokens : List Token) :
    Yields (·.value.IsValue may) Located.Declared (readUnary site tokens) := by
  unfold readUnary
  generalize here : tokens = text
  split
  · exact site.declared_fault (by simp)
  · next token rest =>
    have less : rest.length < tokens.length := by simp [here]
    split
    · trivial
    · split
      · exact (yields_readUnary rest).bind fun operand ho => ho
      · exact (yields_readPrimary token rest).bind fun primary hp => hp
termination_by 16 * tokens.length + 4

theorem yields_readPrimary (token : Token) (rest : List Token) :
    Yields (·.value.IsValue may) Located.Declared (readPrimary site token rest) := by
  unfold readPrimary
  split
  · trivial
  · trivial
  · split <;> trivial
  · trivial
  · trivial
  · next name _ => exact yields_readName token name rest
  · refine (yields_readList rest).bind fun inner hi => ?_
    exact (yields_readClosing site inner.rest).bind fun _ _ => hi
  · rintro ⟨⟩
termination_by 16 * rest.length + (16 + 3)

theorem yields_readName (token : Token) (name : String) (rest : List Token) :
    Yields (·.value.IsValue may) Located.Declared (readName site token name rest) := by
  unfold readName
  split
  · trivial
  · split
    · trivial
    · generalize here : rest = text
      split
      · trivial
      · next next after =>
        have less : after.length < rest.length := by simp [here]
        split
        · split
          · exact (yields_readArguments after).bind fun arguments ha => ha
          · trivial
        · exact (yields_readSequence after).bind fun e he => Node.isValue_expression.2 he
        · exact (yields_readSequence after).bind fun e he => Node.isValue_expression.2 he
        · trivial
termination_by 16 * rest.length + (16 + 2)

theorem yields_readArguments (tokens : List Token) :
    Yields (AreValues may ·.value) Located.Declared (readArguments site tokens) := by
  unfold readArguments
  split
  · trivial
  · exact yields_readArgumentList tokens
termination_by 16 * tokens.length + 10

theorem yields_readArgumentList (tokens : List Token) :
    Yields (AreValues may ·.value) Located.Declared (readArgumentList site tokens) := by
  unfold readArgumentList
  refine (yields_readArgument tokens).bind fun first hf => ?_
  have := first.rest_lt
  refine (yields_readSeparator site first.rest).bind fun separator _ => ?_
  have := separator.rest_lt
  split
  · exact (yields_readArgumentList separator.rest).bind fun more hm => ⟨hf, hm⟩
  · exact ⟨hf, trivial⟩
termination_by 16 * tokens.length + 9

theorem yields_readArgument (tokens : List Token) :
    Yields (·.value.IsValue may) Located.Declared (readArgument site tokens) := by
  unfold readArgument
  generalize here : tokens = text
  split
  · next rest =>
    have less : rest.length < tokens.length := by
      rw [here, List.length_cons, List.length_cons]
      omega
    exact (yields_readSequence rest).bind fun e he => Node.isValue_expression.2 he
  · exact (yields_readSequence _).bind fun e he => Expression.isValue_asArgument he
termination_by 16 * tokens.length + 8

end

theorem Expression.yields_ofTokens (tokens : List Token) (line : Nat) :
    Yields (·.IsValue may) Located.Declared (ofTokens tokens line) := by
  unfold ofTokens
  have list := @yields_readList may (.ofTokens tokens line) tokens
  refine list.bind fun whole hw => ?_
  split
  · exact hw
  · rintro ⟨⟩

end StylusToScss
