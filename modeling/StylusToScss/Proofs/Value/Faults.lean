import StylusToScss.Proofs.Value.Faithful

/-!
# Where reading a value fails

A reader of values leaves a part of the tokens that it starts with, or fails at one of the tokens of
the value. Behind the last one it fails at the last one; a value that is read has one, so no place
has to be made up (`Expression.fails_ofTokens`). The proofs follow the readers, by the same
recursion.
-/

namespace StylusToScss

variable {tokens rest whole : List Token} {token : Token} {site : ValueSite}

/-! ## Faults at tokens -/

/-- The failure is reported at one of the tokens. -/
def Located.At (whole : List Token) (fault : Located ParseFault) : Prop :=
  ∃ token ∈ whole, fault = token.fault fault.cause

theorem Token.fault_at (mem : token ∈ whole) (cause : ParseFault) :
    (token.fault cause).At whole :=
  ⟨token, mem, rfl⟩

/-- The tokens are the last ones of a value, which ends at one of its tokens. -/
structure ValueSite.Tail (site : ValueSite) (whole tokens : List Token) : Prop where
  suffix : tokens <:+ whole
  ends : ∃ token ∈ whole, site.endLine = token.span.line ∧ site.endColumn = token.span.column

namespace ValueSite.Tail

/-- A value that has tokens ends at one of them. -/
theorem ofTokens (some : tokens ≠ []) (line : Nat) :
    (ValueSite.ofTokens tokens line).Tail tokens tokens := by
  refine ⟨List.suffix_rfl, tokens.getLast some, List.getLast_mem some, ?_⟩
  rw [ValueSite.ofTokens, List.getLast?_eq_some_getLast some]
  exact ⟨rfl, rfl⟩

theorem of_suffix (h : site.Tail whole tokens) (part : rest <:+ tokens) : site.Tail whole rest :=
  ⟨part.trans h.suffix, h.ends⟩

theorem tail (h : site.Tail whole (token :: rest)) : site.Tail whole rest :=
  h.of_suffix (List.suffix_cons token rest)

theorem mem (h : site.Tail whole (token :: rest)) : token ∈ whole := h.suffix.subset (.head _)

theorem fault_at (h : site.Tail whole tokens) (cause : ParseFault) :
    (site.fault tokens cause).At whole := by
  cases tokens with
  | nil =>
    obtain ⟨token, mem, line, column⟩ := h.ends
    refine ⟨token, mem, ?_⟩
    show Located.mk cause site.endLine site.endColumn = ⟨cause, _, _⟩
    rw [line, column]
  | cons token rest => exact token.fault_at h.mem cause

end ValueSite.Tail

/-! ## Readers -/

/-- A reading leaves a part of the tokens of the value, or fails at one of them. -/
abbrev ValueSite.Bounds (site : ValueSite) (whole : List Token) {n : Nat} {α : Type}
    {tokens : List Token} (x : ReadResult n α tokens) : Prop :=
  Yields (site.Tail whole ·.rest) (·.At whole) x

theorem bounds_readClosing (h : site.Tail whole tokens) :
    site.Bounds whole (readClosing site tokens) := by
  unfold readClosing
  split
  · exact h.tail
  · exact h.fault_at _

theorem bounds_readSeparator (h : site.Tail whole tokens) :
    site.Bounds whole (readSeparator site tokens) := by
  unfold readSeparator
  split
  · exact h.tail
  · exact h.tail
  · exact h.fault_at _

mutual

theorem bounds_readList (tokens : List Token) (h : site.Tail whole tokens) :
    site.Bounds whole (readList site tokens) := by
  unfold readList
  refine (bounds_readSequence tokens h).bind fun first behind => ?_
  have := first.rest_lt
  exact (bounds_readFurther first.rest behind).bind fun _ behind => behind
termination_by 16 * tokens.length + 7

theorem bounds_readFurther (tokens : List Token) (h : site.Tail whole tokens) :
    site.Bounds whole (readFurther site tokens) := by
  unfold readFurther
  generalize here : tokens = text at h
  split
  · next rest =>
    have less : rest.length < tokens.length := by simp [here]
    refine (bounds_readSequence rest h.tail).bind fun sequence behind => ?_
    have := sequence.rest_lt
    exact (bounds_readFurther sequence.rest behind).bind fun _ behind => behind
  · exact h
termination_by 16 * tokens.length + 0

theorem bounds_readSequence (tokens : List Token) (h : site.Tail whole tokens) :
    site.Bounds whole (readSequence site tokens) := by
  unfold readSequence
  generalize here : tokens = text at h
  split
  · exact h.fault_at _
  · next token rest =>
    split
    · exact token.fault_at h.mem _
    · rw [← here] at h ⊢
      refine (bounds_readBinary 0 tokens h).bind fun first behind => ?_
      have := first.rest_lt
      exact (bounds_readOperands first.rest behind).bind fun _ behind => behind
termination_by 16 * tokens.length + 6

theorem bounds_readOperands (tokens : List Token) (h : site.Tail whole tokens) :
    site.Bounds whole (readOperands site tokens) := by
  unfold readOperands
  generalize here : tokens = text at h
  split
  · exact h
  · next token rest =>
    split
    · exact h
    · rw [← here] at h ⊢
      refine (bounds_readBinary 0 tokens h).bind fun first behind => ?_
      have := first.rest_lt
      exact (bounds_readOperands first.rest behind).bind fun _ behind => behind
termination_by 16 * tokens.length + 6

theorem bounds_readBinary (least : Nat) (tokens : List Token) (h : site.Tail whole tokens) :
    site.Bounds whole (readBinary site least tokens) := by
  unfold readBinary
  refine (bounds_readUnary tokens h).bind fun first behind => ?_
  have := first.rest_lt
  exact (bounds_readOperators least first.value first.rest behind).bind fun _ behind => behind
termination_by 16 * tokens.length + 5

theorem bounds_readOperators (least : Nat) (left : Node) (tokens : List Token)
    (h : site.Tail whole tokens) : site.Bounds whole (readOperators site least left tokens) := by
  unfold readOperators
  split
  · exact h
  · next op found =>
    split
    · exact h
    · have := op.rest_lt
      have operand := h.of_suffix (operator?_spec found).2.suffix
      refine (bounds_readBinary op.value.rightPrecedence op.rest operand).bind
        fun right behind => ?_
      have := right.rest_lt
      exact (bounds_readOperators least _ right.rest behind).bind fun _ behind => behind
termination_by 16 * tokens.length + 0

theorem bounds_readUnary (tokens : List Token) (h : site.Tail whole tokens) :
    site.Bounds whole (readUnary site tokens) := by
  unfold readUnary
  generalize here : tokens = text at h
  split
  · exact h.fault_at _
  · next token rest =>
    have less : rest.length < tokens.length := by simp [here]
    split
    · next word found => exact h.of_suffix (spells_important found site.line).suffix
    · split
      · exact (bounds_readUnary rest h.tail).bind fun _ behind => behind
      · exact (bounds_readPrimary token rest h).bind fun _ behind => behind
termination_by 16 * tokens.length + 4

theorem bounds_readPrimary (token : Token) (rest : List Token)
    (h : site.Tail whole (token :: rest)) :
    site.Bounds whole (readPrimary site token rest) := by
  have behind := h.tail
  unfold readPrimary
  split
  · exact behind
  · exact behind
  · split
    · exact behind
    · exact behind
  · exact behind
  · exact behind
  · next name _ => exact bounds_readName token name rest behind
  · refine (bounds_readList rest behind).bind fun inner behind => ?_
    exact (bounds_readClosing behind).bind fun _ behind => behind
  · exact token.fault_at h.mem _
termination_by 16 * rest.length + (16 + 3)

theorem bounds_readName (token : Token) (name : String) (rest : List Token)
    (h : site.Tail whole rest) : site.Bounds whole (readName site token name rest) := by
  unfold readName
  split
  · exact h
  · split
    · exact h
    · generalize here : rest = text at h
      split
      · exact h
      · next next after =>
        have less : after.length < rest.length := by simp [here]
        split
        · split
          · exact (bounds_readArguments after h.tail).bind fun _ behind => behind
          · exact h
        · exact (bounds_readSequence after h.tail).bind fun _ behind => behind
        · exact (bounds_readSequence after h.tail).bind fun _ behind => behind
        · exact h
termination_by 16 * rest.length + (16 + 2)

theorem bounds_readArguments (tokens : List Token) (h : site.Tail whole tokens) :
    site.Bounds whole (readArguments site tokens) := by
  unfold readArguments
  split
  · exact h.tail
  · exact bounds_readArgumentList tokens h
termination_by 16 * tokens.length + 10

theorem bounds_readArgumentList (tokens : List Token) (h : site.Tail whole tokens) :
    site.Bounds whole (readArgumentList site tokens) := by
  unfold readArgumentList
  refine (bounds_readArgument tokens h).bind fun first behind => ?_
  have := first.rest_lt
  refine (bounds_readSeparator behind).bind fun separator behind => ?_
  have := separator.rest_lt
  split
  · exact (bounds_readArgumentList separator.rest behind).bind fun _ behind => behind
  · exact behind
termination_by 16 * tokens.length + 9

theorem bounds_readArgument (tokens : List Token) (h : site.Tail whole tokens) :
    site.Bounds whole (readArgument site tokens) := by
  unfold readArgument
  generalize here : tokens = text at h
  split
  · next rest =>
    have less : rest.length < tokens.length := by
      rw [here, List.length_cons, List.length_cons]
      omega
    have value := h.tail.tail
    exact (bounds_readSequence rest value).bind fun _ behind => behind
  · exact (bounds_readSequence _ h).bind fun _ behind => behind
termination_by 16 * tokens.length + 8

end

/-- Tokens write a value, or fail at one of them. -/
theorem Expression.fails_ofTokens (some : tokens ≠ []) (line : Nat) :
    Yields (fun _ => True) (·.At tokens) (ofTokens tokens line) := by
  have list := bounds_readList tokens (.ofTokens some line)
  unfold ofTokens
  refine list.bind fun whole behind => ?_
  split
  · trivial
  · next token _ here =>
    rw [here] at behind
    exact token.fault_at behind.mem _

end StylusToScss
