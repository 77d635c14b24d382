import StylusToScss.Proofs.Statement.LineNumbers
import StylusToScss.Proofs.Token.Copied
import StylusToScss.Statement.OfTokens

/-!
# What is cut out of the source text

Most of a tree is read from the tokens alone. Only selectors, names of properties and import paths
without quotes are cut out of the source text, from the start of one token to the end of another.
`sourceTexts` reads off a token list which tokens these are: it goes from line to line and tells
from the first tokens of a line, and from what follows it, what the line is.
-/

namespace StylusToScss

variable {tokens rest line after piece : List Token} {token first : Token}

/-- The words that a statement starts with which is no declaration. -/
def keywords : List String := ["if", "unless", "else", "for", "return"]

/-- The line goes on with an operator of assignment. -/
def assigns (line : List Token) : Bool :=
  line.head?.any fun op => op.kind == .assign || op.kind == .conditionalAssign

/-- The line starts with no keyword and no at-word, and it assigns nothing. -/
def declares (first : Token) (line : List Token) : Bool :=
  match first.kind with
  | .atWord _ => false
  | .ident word => !keywords.contains word && !assigns line
  | _ => true

/-- The line holds the selectors of a group. -/
def selects (first : Token) (line after : List Token) : Bool :=
  declares first line &&
    if blockFollows after then (definitionName? (first :: line)).isNone
    else !startsCall (first :: line) && endsWithComma (first :: line)

/-- The tokens of the name, if the line is a property. -/
def propertyName (tokens : List Token) : List Token :=
  let run := touchingRun tokens
  match (tokens.take run).findIdx? fun token => token.kind == .colon with
  | some colon => tokens.take colon
  | none => tokens.take run

/-- The tokens of a line that are cut out of the source together: all of its selectors, the name of
a property, or a path without quotes. -/
def lineTexts (first : Token) (line after : List Token) : List (List Token) :=
  if selects first line after then [first :: line]
  else if declares first line && !blockFollows after && !startsCall (first :: line) then
    [propertyName (first :: line)]
  else
    match first.kind with
    | .atWord word =>
      if (word = "import" ∨ word = "require") ∧ stringLiterals? line first.span.line = none then
        [line]
      else []
    | _ => []

/-- The tokens that are cut out of the source together, line by line. The first line is one of
further selectors if it is `continued`. -/
def sourceTexts (continued : Bool) (tokens : List Token) : List (List Token) :=
  match tokens with
  | [] => []
  | token :: rest =>
    if token.kind = .endOfInput then []
    else if token.kind.endsLine then sourceTexts continued rest
    else
      match lineOf (token :: rest) with
      | [] => sourceTexts continued (afterLine rest)
      | first :: line =>
        if continued then
          (first :: line) :: sourceTexts (endsWithComma (first :: line)) (afterLine rest)
        else lineTexts first line (afterLine rest) ++
          sourceTexts (selects first line (afterLine rest) && endsWithComma (first :: line))
            (pastRule first (afterLine rest))
termination_by tokens.length
decreasing_by
  · exact Nat.lt_succ_self _
  · exact Nat.lt_succ_of_le (length_afterLine rest)
  · exact Nat.lt_succ_of_le (length_afterLine rest)
  · exact Nat.lt_succ_of_le (Nat.le_trans (length_pastRule _ _) (length_afterLine rest))

theorem sourceTexts_of_endsLine (continued : Bool) (h : token.kind.endsLine = true)
    (more : token.kind ≠ .endOfInput) :
    sourceTexts continued (token :: rest) = sourceTexts continued rest := by
  rw [sourceTexts, if_neg more, if_pos h]

theorem sourceTexts_of_content (continued : Bool) (content : token.kind.endsLine = false) :
    sourceTexts continued (token :: rest) = match lineOf (token :: rest) with
      | [] => sourceTexts continued (afterLine rest)
      | first :: line =>
        if continued then
          (first :: line) :: sourceTexts (endsWithComma (first :: line)) (afterLine rest)
        else lineTexts first line (afterLine rest) ++
          sourceTexts (selects first line (afterLine rest) && endsWithComma (first :: line))
            (pastRule first (afterLine rest)) := by
  rw [sourceTexts, if_neg (by rintro kind; rw [kind] at content; cases content),
    if_neg (by rw [content]; exact Bool.false_ne_true)]

theorem sourceTexts_skipNewlines (continued : Bool) (tokens : List Token) :
    sourceTexts continued (skipNewlines tokens) = sourceTexts continued tokens := by
  induction tokens with
  | nil => rfl
  | cons token rest ih =>
    unfold skipNewlines at ih ⊢
    rw [List.dropWhile_cons]
    split
    · next newline =>
      have kind := beq_iff_eq.1 newline
      rw [ih, sourceTexts_of_endsLine continued (by rw [kind]; rfl) (by rw [kind]; rintro ⟨⟩)]
    · rfl

theorem sourceTexts_semicolons (content : token.kind.endsLine = false)
    (here : lineOf (token :: rest) = []) (continued : Bool) :
    sourceTexts continued (token :: rest) = sourceTexts continued (afterLine rest) := by
  rw [sourceTexts_of_content _ content, here]

theorem sourceTexts_line (content : token.kind.endsLine = false)
    (here : lineOf (token :: rest) = first :: line) :
    sourceTexts false (token :: rest) = lineTexts first line (afterLine rest) ++
      sourceTexts (selects first line (afterLine rest) && endsWithComma (first :: line))
        (pastRule first (afterLine rest)) := by
  rw [sourceTexts_of_content _ content, here]
  rfl

theorem sourceTexts_continued (here : lineOf tokens ≠ []) :
    sourceTexts true tokens =
      lineOf tokens :: sourceTexts (endsWithComma (lineOf tokens)) (afterLine tokens) := by
  obtain ⟨token, rest, rfl, content⟩ := content_of_lineOf here
  obtain ⟨first, line, here⟩ := List.exists_cons_of_ne_nil here
  rw [sourceTexts_of_content _ content, here, afterLine_cons content]
  rfl

/-! ## They are parts of lines -/

theorem propertyName_isPrefix (tokens : List Token) : propertyName tokens <+: tokens := by
  unfold propertyName
  simp only
  split
  · exact List.take_prefix _ _
  · exact List.take_prefix _ _

theorem isInfix_of_mem_lineTexts (h : piece ∈ lineTexts first line after) :
    piece <:+: first :: line := by
  unfold lineTexts at h
  split at h
  · obtain rfl := List.mem_singleton.1 h
    exact List.infix_rfl
  · split at h
    · rw [List.mem_singleton.1 h]
      exact (propertyName_isPrefix _).isInfix
    · split at h
      · split at h
        · rw [List.mem_singleton.1 h]
          exact (List.suffix_cons _ _).isInfix
        · cases h
      · cases h

theorem inLine_lineOf (tokens : List Token) : InLine (lineOf tokens) := by
  intro token ht
  have taken := (List.dropWhile_sublist _).subset (List.mem_reverse.1 ht)
  simpa using List.mem_takeWhile_imp (List.mem_reverse.1 taken)

theorem InLine.part (h : InLine tokens) (part : piece <:+: tokens) : InLine piece :=
  fun token ht => h token (part.subset ht)

/-- What is cut out of the source together is a part of one line. -/
theorem isInfix_of_mem_sourceTexts {continued : Bool} (h : piece ∈ sourceTexts continued tokens) :
    piece <:+: tokens ∧ InLine piece := by
  have afterLine_isInfix (token : Token) (rest : List Token) :
      afterLine rest <:+: token :: rest :=
    ((afterLine_suffix rest).trans (List.suffix_cons _ _)).isInfix
  fun_induction sourceTexts continued tokens with
  | case1 | case2 => cases h
  | case3 continued token rest _ _ ih =>
    exact (ih h).imp_left (·.trans (List.suffix_cons _ _).isInfix)
  | case4 continued token rest _ _ _ ih =>
    exact (ih h).imp_left (·.trans (afterLine_isInfix token rest))
  | case5 token rest _ _ first line here ih =>
    rcases List.mem_cons.1 h with rfl | h
    · rw [← here]
      exact ⟨(lineOf_isPrefix _).isInfix, inLine_lineOf _⟩
    · exact (ih h).imp_left (·.trans (afterLine_isInfix token rest))
  | case6 continued token rest _ _ first line here _ ih =>
    rcases List.mem_append.1 h with h | h
    · have part := isInfix_of_mem_lineTexts h
      rw [← here] at part
      exact ⟨part.trans (lineOf_isPrefix _).isInfix, (inLine_lineOf _).part part⟩
    · have past := (pastRule_suffix first (afterLine rest)).isInfix
      exact (ih h).imp_left (·.trans (past.trans (afterLine_isInfix token rest)))

theorem sublist_of_mem_sourceTexts {continued : Bool} (h : piece ∈ sourceTexts continued tokens) :
    piece.Sublist tokens :=
  (isInfix_of_mem_sourceTexts h).1.sublist

end StylusToScss
