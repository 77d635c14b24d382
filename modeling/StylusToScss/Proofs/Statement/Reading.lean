import StylusToScss.Proofs.Statement.Line

/-!
# What the readers of statements yield

From tokens sliced from a source, the readers of statements yield statements and leave tokens sliced
from the source, or fail with a failure that the source is to blame for. The proofs follow the
readers, by the same recursion.

* `Stylesheet.yields_ofSource`: this of a whole source.
-/

namespace StylusToScss

variable {source : String} {may : Leeway} {tokens rest line after : List Token}
  {first token keyword : Token}

/-- A reading yields something good, and leaves tokens that are sliced from the source. -/
abbrev Reads (source : String) (may : Leeway) {n : Nat} {α : Type} {tokens : List Token}
    (good : α → Prop) (x : ReadResult n α tokens) : Prop :=
  Yields (fun taken => good taken.value ∧ Sliced source may.bare taken.rest) Located.Declared x

theorem sliced_of_skipNewlines {bare : Prop} {next : List Token} (h : Sliced source bare tokens)
    (skipped : skipNewlines tokens = next) : Sliced source bare next :=
  skipped ▸ h.skipNewlines

theorem Sliced.tail {bare : Prop} (h : Sliced source bare (token :: tokens)) :
    Sliced source bare tokens :=
  h.sublist (List.sublist_cons_self _ _)

/-- What stands behind line breaks starts a line, if it is not another mark. -/
theorem content_of_skipNewlines (skipped : skipNewlines tokens = token :: rest)
    (eof : token.kind ≠ .endOfInput) (indent : token.kind ≠ .indent)
    (dedent : token.kind ≠ .dedent) : token.kind.endsLine = false := by
  have newline := kind_of_skipNewlines skipped
  cases kind : token.kind with
  | newline => exact absurd kind newline
  | indent => exact absurd kind indent
  | dedent => exact absurd kind dedent
  | endOfInput => exact absurd kind eof
  | _ => rfl

theorem reads_readLineBreak (h : Sliced source may.bare tokens) :
    Reads source may (fun _ => True) (readLineBreak tokens) := by
  unfold readLineBreak
  split
  · exact ⟨trivial, h.tail⟩
  · exact nofun

mutual

theorem reads_readBody (tokens : List Token) (h : Sliced source may.bare tokens) :
    Reads source may (AreStatements may) (readBody source tokens) := by
  unfold readBody
  split
  · next none => exact ⟨trivial, sliced_of_skipNewlines h none⟩
  · next token rest some =>
    have here := sliced_of_skipNewlines h some
    have less := length_of_skipNewlines some
    split
    · exact ⟨trivial, here⟩
    · exact nofun
    · exact ⟨trivial, here.tail⟩
    · next eof indent dedent =>
      have content := content_of_skipNewlines some eof indent dedent
      refine (reads_readStatement token rest here content).bind fun statement ⟨hs, hr⟩ => ?_
      have := statement.rest_le
      refine (reads_readBody statement.rest hr).bind fun more ⟨hm, hr⟩ => ?_
      exact ⟨areStatements_append.2 ⟨hs, hm⟩, hr⟩
termination_by 16 * tokens.length + 9

theorem reads_readBlock (number : Nat) (tokens : List Token) (h : Sliced source may.bare tokens) :
    Reads source may (AreStatements may ·.nodes) (readBlock source number tokens) := by
  unfold readBlock
  split
  · exact nofun
  · next token rest some =>
    have less := length_of_skipNewlines some
    split
    · exact (reads_readBody rest (sliced_of_skipNewlines h some).tail).bind fun body hb => hb
    · exact nofun
termination_by 16 * tokens.length + 1

theorem reads_readStatement (first : Token) (rest : List Token)
    (h : Sliced source may.bare (first :: rest)) (content : first.kind.endsLine = false) :
    Reads source may (AreStatements may ·.toList) (readStatement source first rest) := by
  have whole := (h.isLine content (.refl _)).sublist (withoutSemicolons_sublist _)
  unfold readStatement
  split
  · exact ⟨trivial, h.tail.afterLine⟩
  · next start line cut =>
    rw [cut] at whole
    have := length_afterLine rest
    refine (reads_readNode start line (afterLine rest) whole h.tail.afterLine).bind ?_
    exact fun node ⟨hn, hr⟩ => ⟨⟨hn, trivial⟩, hr⟩
termination_by 16 * rest.length + (16 + 8)

theorem reads_readNode (first : Token) (line after : List Token)
    (h : IsLine source may.bare (first :: line)) (next : Sliced source may.bare after) :
    Reads source may (·.IsStatement may) (readNode source first line after) := by
  unfold readNode
  simp only
  split
  · split
    · exact (yields_readImport may h).bind fun node hn => ⟨hn, next⟩
    · exact ⟨trivial, next.afterBlock⟩
  · exact reads_readConditional first line after next
  · exact reads_readConditional first line after next
  · exact nofun
  · refine (yields_readLoopHead may first line _).bind fun head hh => ?_
    refine (reads_readBlock _ after next).bind fun block ⟨hb, hr⟩ => ?_
    exact ⟨Node.isStatement_loop.2 ⟨hh, hb⟩, hr⟩
  · exact (yields_valueOf may line first _).bind fun value hv =>
      ⟨Node.isValue_expression.2 hv, next⟩
  · exact reads_readDeclaration first line after h next
termination_by 16 * after.length + 7

theorem reads_readConditional (keyword : Token) (line after : List Token)
    (h : Sliced source may.bare after) :
    Reads source may (·.IsStatement may) (readConditional source keyword line after) := by
  unfold readConditional
  refine (yields_readCondition may keyword line).bind fun condition hc => ?_
  refine (reads_readBlock _ after h).bind fun block ⟨hb, hr⟩ => ?_
  have := block.rest_lt
  refine (reads_readAlternatives block.rest hr).bind fun alternatives ⟨ha, hr⟩ => ?_
  exact ⟨Node.isStatement_conditional.2 ⟨hc, hb, ha⟩, hr⟩
termination_by 16 * after.length + 6

theorem reads_readAlternatives (tokens : List Token) (h : Sliced source may.bare tokens) :
    Reads source may (AreAlternatives may) (readAlternatives source tokens) := by
  unfold readAlternatives
  split
  · exact ⟨trivial, h⟩
  · next word rest some =>
    have behind := (sliced_of_skipNewlines h some).tail.afterLine
    have := length_afterLine rest
    have := length_of_skipNewlines some
    split
    · next isElse =>
      have kind := Kind.isWord_iff.1 isElse
      simp only
      rw [withoutSemicolons_cons _ (by rw [kind]; exact nofun), tokenAt_zero, ok_bind,
        List.drop_one, List.tail_cons]
      split
      · refine (reads_readBlock _ (afterLine rest) behind).bind fun block ⟨hb, hr⟩ => ?_
        exact ⟨areAlternatives_block.2 ⟨hb, trivial⟩, hr⟩
      · next keyword line _ =>
        split
        · refine (yields_readCondition may keyword line).bind fun condition hc => ?_
          refine (reads_readBlock _ (afterLine rest) behind).bind fun block ⟨hb, hr⟩ => ?_
          have := block.rest_lt
          refine (reads_readAlternatives block.rest hr).bind fun more ⟨hm, hr⟩ => ?_
          exact ⟨areAlternatives_conditional.2 ⟨hc, hb, trivial, hm⟩, hr⟩
        · exact nofun
    · exact ⟨trivial, h⟩
termination_by 16 * tokens.length + 5

theorem reads_readDeclaration (first : Token) (line after : List Token)
    (h : IsLine source may.bare (first :: line)) (next : Sliced source may.bare after) :
    Reads source may (·.IsStatement may) (readDeclaration source first line after) := by
  unfold readDeclaration
  simp only
  split
  · exact (yields_readAssignment may _ _ _ _).bind fun node hn => ⟨hn, next⟩
  · exact (yields_readAssignment may _ _ _ _).bind fun node hn => ⟨hn, next⟩
  · split
    · split
      · next name form =>
        have size := length_of_definitionName? form
        rw [tokensBetween_eq_ok (by omega) (Nat.sub_le _ _), ok_bind]
        refine (yields_readParameters may _ _).bind fun params hp => ?_
        refine (reads_readBlock _ after next).bind fun block ⟨hb, hr⟩ => ?_
        exact ⟨Node.isStatement_definition.2 ⟨hp, hb⟩, hr⟩
      · exact reads_readGroup _ _ after h (List.cons_ne_nil _ _) next
    · split
      · exact (yields_readExpression _ _ _).bind fun node hn => ⟨hn, next⟩
      · split
        · exact reads_readGroup _ _ after h (List.cons_ne_nil _ _) next
        · exact (yields_readProperty h (List.cons_ne_nil _ _)).bind fun node hn => ⟨hn, next⟩
termination_by 16 * after.length + 4

theorem reads_readGroup (number : Nat) (line after : List Token) (h : IsLine source may.bare line)
    (notNil : line ≠ []) (next : Sliced source may.bare after) :
    Reads source may (·.IsStatement may) (readGroup source number line after) := by
  unfold readGroup
  refine (reads_readSelectors line after h notNil next).bind fun selectors ⟨hs, hr⟩ => ?_
  have := selectors.rest_le
  refine (reads_readBlock number selectors.rest hr).bind fun block ⟨hb, hr⟩ => ?_
  exact ⟨Node.isStatement_group.2 ⟨hs.1, hs.2, hb⟩, hr⟩
termination_by 16 * after.length + 3

theorem reads_readSelectors (line after : List Token) (h : IsLine source may.bare line)
    (notNil : line ≠ []) (next : Sliced source may.bare after) :
    Reads source may (fun selectors => (selectors = [] → may.bare) ∧
      ∀ selector ∈ selectors, AreValues may selector.segments)
      (readSelectors source line after) := by
  unfold readSelectors
  refine (yields_readSelectorLine may h notNil).bind fun selectors ⟨empty, hs⟩ => ?_
  split
  · refine (reads_readLineBreak next).bind fun gap ⟨_, hr⟩ => ?_
    simp only
    split
    · exact nofun
    · next some =>
      have := length_afterLine (skipNewlines gap.rest)
      have := length_skipNewlines gap.rest
      have := gap.rest_lt
      refine (reads_readSelectors _ _ hr.skipNewlines.isLine_lineOf some
        hr.skipNewlines.afterLine).bind fun more ⟨⟨noMore, hm⟩, hr⟩ => ?_
      refine ⟨⟨fun none => noMore (List.append_eq_nil_iff.1 none).2, ?_⟩, hr⟩
      exact List.forall_mem_append.2 ⟨hs, hm⟩
  · next ends =>
    exact ⟨⟨fun none => (empty none).resolve_right ends, hs⟩, next⟩
termination_by 16 * after.length + 2

end

theorem yields_readStatements (tokens : List Token) (h : Sliced source may.bare tokens) :
    Yields (AreStatements may) Located.Declared (readStatements source tokens) := by
  unfold readStatements
  split
  · trivial
  · next token rest some =>
    have here := sliced_of_skipNewlines h some
    have less := length_of_skipNewlines some
    split
    · trivial
    · exact nofun
    · exact yields_readStatements rest here.tail
    · next eof indent dedent =>
      have content := content_of_skipNewlines some eof indent dedent
      refine (reads_readStatement token rest here content).bind fun statement ⟨hs, hr⟩ => ?_
      have := statement.rest_le
      refine (yields_readStatements statement.rest hr).bind fun more hm => ?_
      exact areStatements_append.2 ⟨hs, hm⟩
termination_by tokens.length

/-- Reading a source yields statements, or a failure that the source is to blame for. Every group
has selectors if no symbol of the source is blank. -/
theorem Stylesheet.yields_ofSource (solid : ¬ may.bare → ∀ tokens, tokenize source = .ok tokens →
      ∀ token ∈ tokens, ∀ c, token.kind = .symbol c → Text.isBlank c = false) :
    Yields (AreStatements may ·.nodes) Located.Declared (Stylesheet.ofSource source) := by
  unfold Stylesheet.ofSource
  split
  · next tokens cut =>
    have sliced := sliced_of_tokenize cut fun not => solid not tokens cut
    exact (yields_readStatements tokens sliced).bind fun nodes hn => hn
  · exact nofun

end StylusToScss
