import StylusToScss.Proofs.Interpolation
import StylusToScss.Proofs.Token.Slices
import StylusToScss.Statement.OfTokens

/-!
# What the readers of a line yield

A line is a part of the tokens of a source, so the text between two of its tokens can be taken, and
every index that a reader uses lies inside it. The readers of a line yield nodes that can be written
where they are put, or a failure that the source is to blame for.
-/

namespace StylusToScss

open Text

/-! ## Lines -/

/-- Tokens of a source that stand on one logical line. -/
structure IsLine (source : String) (bare : Prop) (tokens : List Token) : Prop
    extends Sliced source bare tokens where
  content : ∀ token ∈ tokens, token.kind.endsLine = false

variable {source : String} {bare : Prop} {tokens part rest : List Token} {token : Token}

theorem IsLine.sublist (h : IsLine source bare tokens) (sub : part.Sublist tokens) :
    IsLine source bare part where
  toSliced := h.toSliced.sublist sub
  content token ht := h.content token (sub.subset ht)

theorem withoutSemicolons_sublist (line : List Token) : (withoutSemicolons line).Sublist line := by
  have := (List.dropWhile_sublist (fun token => token.kind == .semicolon)
    (l := line.reverse)).reverse
  rwa [List.reverse_reverse] at this

/-- Only semicolons are taken off the end of a line. -/
theorem withoutSemicolons_cons (line : List Token) (h : token.kind ≠ .semicolon) :
    withoutSemicolons (token :: line) = token :: withoutSemicolons line := by
  rw [withoutSemicolons, withoutSemicolons, List.reverse_cons, List.dropWhile_append]
  split
  · next none =>
    rw [List.isEmpty_iff.1 none, List.dropWhile_cons_of_neg (by simpa using h)]
    rfl
  · rw [List.reverse_append]
    rfl

/-- The tokens up to the next end of a line. -/
theorem Sliced.isLine (h : Sliced source bare tokens) (content : token.kind.endsLine = false)
    (sub : (token :: rest).Sublist tokens) :
    IsLine source bare (token :: rest.takeWhile fun token => !token.kind.endsLine) where
  toSliced := h.sublist (((List.takeWhile_sublist _).cons_cons token).trans sub)
  content := by
    rintro t (_ | ⟨_, ht⟩)
    · exact content
    · simpa using List.mem_takeWhile_imp ht

theorem Sliced.isLine_lineOf (h : Sliced source bare tokens) :
    IsLine source bare (lineOf tokens) := by
  have line : IsLine source bare (tokens.takeWhile fun token => !token.kind.endsLine) :=
    ⟨h.sublist (List.takeWhile_sublist _), fun t ht => by simpa using List.mem_takeWhile_imp ht⟩
  exact line.sublist (withoutSemicolons_sublist _)

theorem afterLine_suffix (tokens : List Token) : afterLine tokens <:+ tokens :=
  List.dropWhile_suffix _

theorem skipNewlines_suffix (tokens : List Token) : skipNewlines tokens <:+ tokens :=
  List.dropWhile_suffix _

theorem afterLevels_suffix (depth : Nat) (tokens : List Token) :
    afterLevels depth tokens <:+ tokens := by
  fun_induction afterLevels depth tokens with
  | case1 | case2 => exact List.suffix_rfl
  | case4 => exact List.suffix_cons _ _
  | case3 _ _ _ _ ih | case5 _ _ _ _ _ ih | case6 _ _ _ _ _ _ ih =>
    exact ih.trans (List.suffix_cons _ _)

theorem afterBlock_suffix (tokens : List Token) : afterBlock tokens <:+ tokens := by
  unfold afterBlock
  split
  · exact (afterLevels_suffix _ _).trans
      ((List.drop_suffix _ _).trans (skipNewlines_suffix tokens))
  · exact List.suffix_rfl

theorem Sliced.afterLine (h : Sliced source bare tokens) :
    Sliced source bare (afterLine tokens) :=
  h.sublist (afterLine_suffix tokens).sublist

theorem Sliced.skipNewlines (h : Sliced source bare tokens) :
    Sliced source bare (skipNewlines tokens) :=
  h.sublist (skipNewlines_suffix tokens).sublist

theorem Sliced.afterBlock (h : Sliced source bare tokens) :
    Sliced source bare (afterBlock tokens) :=
  h.sublist (afterBlock_suffix tokens).sublist

/-- What stands behind line breaks is no line break. -/
theorem kind_of_skipNewlines (h : skipNewlines tokens = token :: rest) : token.kind ≠ .newline := by
  have first := List.head?_dropWhile_not (fun token : Token => token.kind == .newline) tokens
  rw [show tokens.dropWhile _ = token :: rest from h] at first
  simpa using first

/-! ## Text -/

theorem Sliced.start_le_stop (h : Sliced source bare tokens) (ht : token ∈ tokens) :
    token.span.start ≤ token.span.stop :=
  (slice?_isSome_iff.1 (h.slices token ht)).1

/-- Every token stands between the start of the first and the end of the last one. -/
theorem Sliced.within {first last : Token} (h : Sliced source bare tokens)
    (hf : tokens.head? = some first) (hl : tokens.getLast? = some last) (ht : token ∈ tokens) :
    first.span.start ≤ token.span.start ∧ token.span.stop ≤ last.span.stop := by
  constructor
  · obtain ⟨rest, rfl⟩ := List.head?_eq_some_iff.1 hf
    rcases List.mem_cons.1 ht with rfl | ht
    · exact Nat.le_refl _
    · exact Nat.le_trans (h.start_le_stop (.head _)) ((List.pairwise_cons.1 h.ordered).1 token ht)
  · obtain ⟨front, rfl⟩ := List.getLast?_eq_some_iff.1 hl
    rcases List.mem_append.1 ht with ht | ht
    · exact Nat.le_trans ((List.pairwise_append.1 h.ordered).2.2 token ht last (by simp))
        (h.start_le_stop (by simp))
    · rw [List.mem_singleton.1 ht]

/-- The text of tokens can be taken, and what they cover stands in it. -/
theorem Sliced.rawText (h : Sliced source bare tokens) :
    ∃ text, rawText source tokens = .ok text ∧
      ∀ token ∈ tokens, token.CoversSolid source →
        ∃ c ∈ text.toList, isBlank c = false ∧ c ≠ ',' := by
  unfold StylusToScss.rawText
  split
  · next first last hf hl =>
    have memf := List.mem_of_head? hf
    have meml := List.mem_of_getLast? hl
    have bounds := slice?_isSome_iff.1 (h.slices first memf)
    have bounds' := slice?_isSome_iff.1 (h.slices last meml)
    have some : (slice? source first.span.start last.span.stop).isSome := by
      refine slice?_isSome_iff.2 ⟨?_, bounds.2.1, bounds'.2.2⟩
      exact Nat.le_trans bounds.1 (h.within hf hl memf).2
    obtain ⟨text, slice⟩ := Option.isSome_iff_exists.1 some
    rw [slice]
    refine ⟨text, rfl, fun token ht ⟨inner, c, inside, mem, solid⟩ => ⟨c, ?_, solid⟩⟩
    have ⟨left, right⟩ := h.within hf hl ht
    exact (slice?_isInfix inside slice left right).subset mem
  · next none =>
    refine ⟨"", rfl, ?_⟩
    intro token ht
    cases tokens with
    | nil => cases ht
    | cons first rest => exact absurd (List.getLast?_cons ..) (none first _ rfl)

/-! ## Indices -/

/-- The first token of a line that has one can be taken. -/
theorem tokenAt_zero (first : Token) (line : List Token) : tokenAt (first :: line) 0 = .ok first :=
  rfl

theorem tokenAt_eq_ok {index : Nat} (h : index < tokens.length) :
    tokenAt tokens index = .ok tokens[index] := by
  rw [tokenAt, List.getElem?_eq_getElem h]

theorem tokensBetween_eq_ok {line : List Token} {start stop : Nat} (ordered : start ≤ stop)
    (inside : stop ≤ line.length) :
    tokensBetween line start stop = .ok ((line.take stop).drop start) :=
  if_pos ⟨ordered, inside⟩

/-- The run at the start of a line is a part of it, and not empty if the line is not. -/
theorem touchingRun_bounds (line : List Token) :
    touchingRun line ≤ line.length ∧ (line ≠ [] → 1 ≤ touchingRun line) := by
  fun_induction touchingRun line with
  | case1 => exact ⟨Nat.le_refl _, fun some => absurd rfl some⟩
  | case2 => exact ⟨Nat.le_refl _, fun _ => Nat.le_refl _⟩
  | case3 token next rest _ ih =>
    simp only [List.length_cons] at ih ⊢
    omega
  | case4 token next rest _ => exact ⟨Nat.succ_le_succ (Nat.zero_le _), fun _ => Nat.le_refl _⟩

/-- A definition has a closing parenthesis behind its name and opening one. -/
theorem length_of_definitionName? {line : List Token} {name : String}
    (h : definitionName? line = some name) : 3 ≤ line.length := by
  unfold definitionName? at h
  split at h
  · next openParen rest =>
    split at h
    · split at h
      · next form =>
        simp only [Bool.and_eq_true, beq_iff_eq] at form
        obtain ⟨⟨paren, -⟩, closes⟩ := form
        rw [closingParen?, paren] at closes
        obtain ⟨n, -, size⟩ := Option.map_eq_some_iff.1 closes
        simp only [List.length_cons]
        omega
      · cases h
    · cases h
  · cases h

/-! ## Readers of a line -/

variable (may : Leeway) {first : Token} {line : List Token} {number : Nat}

theorem yields_valueOf (tokens : List Token) (anchor : Token) (number : Nat) :
    Yields (·.IsValue may) Located.Declared (valueOf tokens anchor number) := by
  unfold valueOf
  split
  · rintro ⟨⟩
  · exact Expression.yields_ofTokens tokens number

theorem isValue_collapsed {may : Leeway} {expression : Expression} (h : expression.IsValue may) :
    expression.collapsed.IsValue may := by
  obtain ⟨nodes, isList, parenthesized, line⟩ := expression
  unfold Expression.collapsed
  split
  · next node single =>
    split
    · exact h
    · cases single
      exact h.1
  · exact h

theorem stringLiterals?_ne_nil {path : List Literal} (h : stringLiterals? tokens number = some path)
    (some : tokens ≠ []) : path ≠ [] := by
  cases tokens with
  | nil => exact absurd rfl some
  | cons token tokens =>
    rw [stringLiterals?, List.mapM_cons] at h
    obtain ⟨_, -, h⟩ := Option.bind_eq_some_iff.1 h
    obtain ⟨_, -, h⟩ := Option.bind_eq_some_iff.1 h
    cases h
    exact List.cons_ne_nil _ _

theorem yields_readImport (h : IsLine source bare (first :: line)) :
    Yields (·.IsStatement may) Located.Declared (readImport source first line number) := by
  unfold readImport
  split
  · rintro ⟨⟩
  · next some =>
    split
    · next path literals => exact stringLiterals?_ne_nil literals (by simpa using some)
    · obtain ⟨text, raw, -⟩ := (h.sublist (List.sublist_cons_self _ _)).rawText
      rw [raw]
      exact List.cons_ne_nil _ _

theorem yields_readCondition (keyword : Token) (rest : List Token) :
    Yields (·.IsValue may) Located.Declared (readCondition keyword rest) := by
  unfold readCondition
  refine (yields_valueOf may rest keyword _).bind fun condition hc => ?_
  split
  · exact isValue_collapsed hc
  · exact isValue_collapsed hc

theorem yields_readLoopKey (tokens : List Token) :
    Yields (fun _ => True) Located.Declared (readLoopKey tokens) := by
  unfold readLoopKey
  split
  · split
    · trivial
    · rintro ⟨⟩
  · trivial

theorem yields_readLoopHead (first : Token) (rest : List Token) (number : Nat) :
    Yields (·.source.IsValue may) Located.Declared (readLoopHead first rest number) := by
  unfold readLoopHead
  split
  · next rest =>
    refine (yields_readLoopKey rest).bind fun key _ => ?_
    simp only
    split
    · exact (yields_valueOf may _ _ number).bind fun value hv => hv
    · rintro ⟨⟩
  · rintro ⟨⟩

theorem yields_readAssignment (name : String) (op : Token) (rest : List Token) (number : Nat) :
    Yields (·.IsStatement may) Located.Declared (readAssignment name op rest number) := by
  unfold readAssignment
  refine (yields_valueOf may rest op number).bind fun value hv => ?_
  simp only
  split
  · exact areValues_append.2 ⟨hv, trivial, trivial⟩
  · exact hv

theorem yields_readParameter (number : Nat) (tokens : List Token) :
    Yields (·.IsParameter may) Located.Declared (readParameter number tokens) := by
  unfold readParameter
  split
  · rintro ⟨⟩
  · trivial
  · trivial
  · exact (yields_valueOf may _ _ number).bind fun value hv => Node.isValue_expression.2 hv
  · rintro ⟨⟩

theorem yields_readParameters (tokens : List Token) (number : Nat) :
    Yields (∀ param ∈ ·.nodes, param.IsParameter may) Located.Declared
      (readParameters tokens number) := by
  unfold readParameters
  split
  · exact fun _ he => nomatch he
  · have each := Yields.mapM fun piece (_ : piece ∈ commaPieces 0 tokens) =>
      yields_readParameter may number piece
    exact each.bind fun params hp => hp.2

/-- A line has selectors unless it holds nothing but commas and blanks, or ends with a comma. -/
theorem yields_readSelectorLine (h : IsLine source may.bare tokens) (some : tokens ≠ []) :
    Yields (fun selectors => (selectors = [] → may.bare ∨ endsWithComma tokens = true) ∧
      ∀ selector ∈ selectors, AreValues may selector.segments) Located.Declared
      (readSelectorLine source tokens) := by
  obtain ⟨first, line, rfl⟩ := List.exists_cons_of_ne_nil some
  obtain ⟨text, raw, solid⟩ := h.rawText
  have segments (text : List Char) : Yields
      (fun selector : Selector => AreValues may selector.segments) Located.Declared (do
        return ⟨← splitSegments text first.span.line first.span.column, first.span.line⟩) :=
    (yields_splitSegments may text _ _).bind fun segments hs => hs
  unfold readSelectorLine
  rw [tokenAt_zero, raw]
  refine (Yields.mapM fun piece (_ : piece ∈ splitSelectors text.toList) => segments piece).mono ?_
  intro selectors ⟨size, hs⟩
  refine ⟨?_, hs⟩
  intro none
  rw [none, List.length_nil, eq_comm, List.length_eq_zero_iff] at size
  have blank := splitSelectors_eq_nil_iff.1 size
  by_cases bare : may.bare
  · exact .inl bare
  · have last := List.getLast_mem some
    by_cases comma : ((first :: line).getLast some).kind = .comma
    · refine .inr ?_
      rw [endsWithComma, List.getLast?_eq_some_getLast some]
      simp [comma]
    · obtain ⟨c, hc, notBlank, notComma⟩ := solid _ last
        (h.solid bare _ last (h.content _ last) comma)
      rcases blank c hc with isComma | isBlank
      · exact absurd isComma notComma
      · rw [notBlank] at isBlank
        cases isBlank

variable {may}

theorem yields_propertyOf {name : List Token} (h : IsLine source may.bare name) (some : name ≠ [])
    (value : List Token) (anchor : Token) (number : Nat) :
    Yields (·.IsStatement may) Located.Declared (propertyOf source name value anchor number) := by
  obtain ⟨first, line, rfl⟩ := List.exists_cons_of_ne_nil some
  obtain ⟨text, raw, -⟩ := h.rawText
  unfold propertyOf
  rw [tokenAt_zero, raw]
  refine (yields_splitSegments may _ _ _).bind fun segments hs => ?_
  refine (yields_valueOf may value anchor number).bind fun value hv => ?_
  exact ⟨hs, hv⟩

theorem yields_readExpression (tokens : List Token) (first : Token) (number : Nat) :
    Yields (·.IsStatement may) Located.Declared (readExpression tokens first number) := by
  unfold readExpression
  exact (yields_valueOf may tokens first number).bind fun value hv => Node.isValue_expression.2 hv

theorem yields_readColonProperty (h : IsLine source may.bare tokens) {colon : Nat}
    (behind : colon ≠ 0) (inside : colon < tokens.length) :
    Yields (·.IsStatement may) Located.Declared (readColonProperty source tokens colon number) := by
  have name : IsLine source may.bare (tokens.take colon) := h.sublist (List.take_sublist _ _)
  have some : tokens.take colon ≠ [] := by
    rw [Ne, List.take_eq_nil_iff]
    rintro (none | rfl)
    · exact behind none
    · cases inside
  unfold readColonProperty
  rw [tokenAt_eq_ok inside, tokensBetween_eq_ok (Nat.zero_le _) (Nat.le_of_lt inside),
    tokensBetween_eq_ok inside (Nat.le_refl _), List.drop_zero, ok_bind, ok_bind, ok_bind]
  split
  · obtain ⟨text, raw, -⟩ := name.rawText
    rw [raw]
    exact nofun
  · exact yields_propertyOf name some _ _ number

theorem yields_readBlankProperty (h : IsLine source may.bare tokens) {run : Nat}
    (some : 1 ≤ run) (inside : run < tokens.length) :
    Yields (·.IsStatement may) Located.Declared (readBlankProperty source tokens run number) := by
  have name : IsLine source may.bare (tokens.take run) := h.sublist (List.take_sublist _ _)
  have notNil : tokens.take run ≠ [] := by
    rw [Ne, List.take_eq_nil_iff]
    rintro (none | rfl)
    · omega
    · cases inside
  unfold readBlankProperty
  rw [tokensBetween_eq_ok (Nat.zero_le _) (Nat.le_of_lt inside),
    tokensBetween_eq_ok (Nat.le_of_lt inside) (Nat.le_refl _), List.drop_zero,
    tokenAt_eq_ok (show run - 1 < tokens.length by omega)]
  exact yields_propertyOf name notNil _ _ number

theorem yields_continuesExpression {index : Nat} (inside : index < tokens.length) :
    Yields (fun _ => True) Located.Declared (continuesExpression tokens index) := by
  unfold continuesExpression
  rw [tokenAt_eq_ok inside]
  trivial

theorem yields_readProperty (h : IsLine source may.bare tokens) (notNil : tokens ≠ []) :
    Yields (·.IsStatement may) Located.Declared (readProperty source tokens number) := by
  obtain ⟨first, line, rfl⟩ := List.exists_cons_of_ne_nil notNil
  have ⟨bound, least⟩ := touchingRun_bounds (first :: line)
  have least := least notNil
  unfold readProperty
  rw [tokenAt_zero, ok_bind]
  simp only
  split
  · next colon found =>
    split
    · rintro ⟨⟩
    · next behind =>
      obtain ⟨inside, -⟩ := List.findIdx?_eq_some_iff_getElem.1 found
      rw [List.length_take] at inside
      exact yields_readColonProperty h behind (by omega)
  · split
    · exact yields_readExpression _ _ number
    · next other =>
      simp only [Bool.or_eq_true, decide_eq_true_eq, not_or] at other
      have inside : touchingRun (first :: line) < (first :: line).length := by omega
      refine (yields_continuesExpression inside).bind fun continues _ => ?_
      split
      · exact yields_readExpression _ _ number
      · exact yields_readBlankProperty h least inside

end StylusToScss
