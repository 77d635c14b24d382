import StylusToScss.Proofs.Statement.Parts
import StylusToScss.Proofs.Token.Joined

/-!
# Sources one behind the other

Two sources that are read one by one are read together too, if a line feed stands between them and
no parenthesis is open behind the first one: the statements of the second source stand behind those
of the first, on later lines (`Stylesheet.ofSource_joined`). Nothing at the end of the first source
takes in what the second one starts with: that is no indented block and no `else`, since neither of
them is read at the start of a source.
-/

namespace StylusToScss

variable {source first second : String} {tokens rest body : List Token} {token last : Token}
  {nodes : List Node}

/-! ## The start of a source -/

theorem readStatement_else (kind : token.kind = .ident "else") (rest : List Token) :
    readStatement source token rest = .error (token.fault .strayElse) := by
  unfold readStatement
  rw [withoutSemicolons_cons _ (by rw [kind]; rintro ⟨⟩)]
  simp only [readNode, kind]
  rfl

/-- Where statements can be read, no indented block and no alternative stands first. -/
theorem starts_of_readStatements (h : readStatements source tokens = .ok nodes) :
    ∀ token ∈ (skipNewlines tokens).head?, token.kind ≠ .newline ∧ token.kind ≠ .indent ∧
      token.kind.isWord "else" = false := by
  intro token ht
  obtain ⟨rest, here⟩ := List.head?_eq_some_iff.1 ht
  refine ⟨kind_of_skipNewlines here, ?_, ?_⟩
  · intro indent
    rw [readStatements_indent here indent] at h
    cases h
  · rw [Bool.eq_false_iff]
    intro isElse
    have kind := Kind.isWord_iff.1 isElse
    rw [readStatements_content here (by rw [kind]; rfl), readStatement_else kind] at h
    cases h

/-! ## Two sources -/

theorem skipNewlines_append {breaks : List Token}
    (newlines : ∀ token ∈ breaks, token.kind = .newline) (rest : List Token) :
    skipNewlines (breaks ++ rest) = skipNewlines rest := by
  induction breaks with
  | nil => rfl
  | cons token breaks ih =>
    obtain ⟨newline, newlines⟩ := List.forall_mem_cons.1 newlines
    rw [List.cons_append, skipNewlines_newline newline, ih newlines]

theorem exists_newlines (tokens : List Token) :
    ∃ breaks : List Token, (∀ token ∈ breaks, token.kind = .newline) ∧
      tokens = breaks ++ skipNewlines tokens := by
  refine ⟨_, fun token ht => ?_, (List.takeWhile_append_dropWhile ..).symm⟩
  simpa using List.mem_takeWhile_imp ht

/-- The statements of a source in another one that ends with it. -/
theorem readStatements_behind {whole : String} {front : List Char}
    (split : whole.toList = front ++ second.toList) (lines : Nat)
    (cut : tokenize second = .ok tokens)
    (read : readStatements second tokens = .ok nodes) :
    readStatements whole (tokens.map (·.moved (.behind (byteLength front) lines))) =
      .ok (raisedNodes lines nodes) := by
  have sliced : Sliced second True tokens := sliced_of_tokenize cut (absurd trivial)
  obtain ⟨tokens, last, rfl, ended⟩ := exists_last_of_tokenize cut
  have texts : ∀ piece ∈ sourceTexts false (tokens ++ [last]),
      (Embedding.entire second whole (.behind (byteLength front) lines) last ended False
        False.elim).SameText piece := by
    intro piece hp
    have part := sliced.sublist (sublist_of_mem_sourceTexts hp)
    refine Embedding.sameText part fun first _ last _ text slice => ?_
    refine slice?_back (List.nil_append second.toList).symm split ?_
    rwa [byteLength, Nat.zero_add, Nat.zero_add]
  obtain ⟨_, read', rfl⟩ := (Embedding.carries_entire cut ended texts).of_eq_ok read
  exact read'

theorem Scan.head_closing (scan : Scan) :
    ∀ token ∈ scan.closing.head?, token.kind = .dedent ∨ token.kind = .endOfInput := by
  intro token ht
  unfold closing at ht
  cases levels : scan.levels.length with
  | zero =>
    rw [levels] at ht
    cases ht
    exact .inr rfl
  | succ n =>
    rw [levels] at ht
    cases ht
    exact .inl rfl

/-- The statements of a source in another one that starts with it and goes on with a line break, if
statements can be read from what stands there behind the levels that are closed. -/
theorem readStatements_ahead {whole : String} {back : List Char}
    {before breaks behind : List Token} {gap mark : Token} {others : List Node} {scan : Scan}
    (split : whole.toList = first.toList ++ back)
    (cut : tokenize first = .ok (before ++ scan.closing))
    (reached : Scan.Reached first.toList before scan)
    (read : readStatements first (before ++ scan.closing) = .ok nodes)
    (newline : gap.kind = .newline) (newlines : ∀ token ∈ breaks, token.kind = .newline)
    (isDedent : mark.kind = .dedent) (read' : readStatements whole behind = .ok others) :
    readStatements whole
      (before ++ gap :: (breaks ++ (List.replicate scan.levels.length mark ++ behind))) =
      .ok (nodes ++ others) := by
  let e : Embedding :=
    ⟨first, whole, .none, skipNewlines behind, starts_of_readStatements read', False, False.elim⟩
  have ends : e.Meets false 0 [scan.cursor.token .endOfInput 0] (skipNewlines behind) :=
    .ends rfl False.elim (by rintro ⟨⟩)
  have meets : e.Meets false 0 [scan.cursor.token .endOfInput 0] behind := by
    obtain ⟨gaps, newlines, split⟩ := exists_newlines behind
    rw [split]
    refine ends.gaps id newlines ?_
    rintro token ⟨⟩
    exact .inr rfl
  have closing := (meets.dedents rfl isDedent False.elim scan.levels.length).gaps id newlines
    scan.head_closing
  rw [Nat.zero_add] at closing
  have joined := reached.meets (e := e) (.gap id newline scan.head_closing closing)
  have unmoved : before.map (·.moved .none) = before := List.map_id before
  have sliced : Sliced first True (before ++ scan.closing) :=
    sliced_of_tokenize cut (absurd trivial)
  have texts : e.Clear false (before ++ scan.closing) := by
    intro piece hp
    have part := sliced.sublist (sublist_of_mem_sourceTexts hp)
    refine Embedding.sameText part fun first _ last _ text slice => ?_
    exact slice?_front (List.append_nil _).symm split (slice?_stop_le slice) slice
  have behind' : readStatements whole e.more = .ok others :=
    (readStatements_skipNewlines e.skipNewlines_more).trans read'
  obtain ⟨_, done, rfl⟩ := (e.carries_readStatements _ joined texts behind').of_eq_ok read
  have lines : e.move.lines = 0 := rfl
  rwa [unmoved, lines, raisedNodes_zero] at done

/-- A stylesheet is read from the tokens of its source. -/
theorem Stylesheet.ofSource_eq_ok_iff {sheet : Stylesheet} : ofSource source = .ok sheet ↔
    ∃ tokens, tokenize source = .ok tokens ∧ readStatements source tokens = .ok sheet.nodes := by
  unfold ofSource
  cases tokenize source with
  | error fault => simp
  | ok tokens =>
    obtain ⟨nodes⟩ := sheet
    simp [ofTokens, bind_eq_ok_iff, pure, Except.pure]

/-- A source from which statements can be read does not start with an indented line. -/
theorem not_indent_of_readStatements {breaks : List Token}
    (newlines : ∀ token ∈ breaks, token.kind = .newline)
    (read : readStatements source (breaks ++ rest) = .ok nodes) :
    ¬ ∃ token ∈ rest.head?, token.kind = .indent := by
  rintro ⟨token, ht, indent⟩
  obtain ⟨rest, rfl⟩ := List.head?_eq_some_iff.1 ht
  have starts := starts_of_readStatements read token
  rw [skipNewlines_append newlines, skipNewlines_of_ne (by simp [indent])] at starts
  exact (starts rfl).2.1 indent

/-- Joined by a line feed, two sources are read as the statements of the first one and those of the
second one, on the lines behind the end of the first. -/
theorem Stylesheet.ofSource_joined {sheet sheet' : Stylesheet} (read : ofSource first = .ok sheet)
    (read' : ofSource second = .ok sheet') (cut : tokenize first = .ok (body ++ [last]))
    (outside : openParens body = 0) (unpaired : first.toList.getLast? ≠ some '\r') :
    ofSource (first ++ "\n" ++ second) =
      .ok ⟨sheet.nodes ++ raisedNodes last.span.line sheet'.nodes⟩ := by
  obtain ⟨tokens, cutFirst, nodes⟩ := ofSource_eq_ok_iff.1 read
  obtain ⟨tokens', cut', nodes'⟩ := ofSource_eq_ok_iff.1 read'
  obtain ⟨before, scan, comes, ended, rfl, rfl⟩ := Scan.Comes.of_tokenize_last cut
  cases cut.symm.trans cutFirst
  rw [List.append_assoc, ← Scan.closing] at cut nodes
  have parens : scan.parens = 0 := by
    rw [comes.reached.leveled.parens, ← outside]
    refine ((openIndents_dedents before fun token ht => ?_).2.1).symm
    rw [List.eq_of_mem_replicate ht]
    rfl
  have whole : (first ++ "\n" ++ second).toList = first.toList ++ '\n' :: second.toList := by simp
  have joined : String.ofList (first.toList ++ '\n' :: second.toList) =
      first ++ "\n" ++ second := by
    rw [← whole, String.ofList_toList]
  rw [← String.ofList_toList (s := second)] at cut'
  obtain ⟨gap, newline, breaks, rest, newlines, rfl, indent | ⟨mark, isDedent, cutJoined⟩⟩ :=
    tokenize_joined comes ended parens unpaired cut'
  · exact absurd indent (not_indent_of_readStatements newlines nodes')
  rw [String.ofList_toList] at cut'
  have front : (first ++ "\n" ++ second).toList = (first.toList ++ ['\n']) ++ second.toList := by
    rw [whole, List.append_assoc]
    rfl
  have bytes : byteLength (first.toList ++ ['\n']) = byteLength first.toList + 1 :=
    byteLength_append _ _
  rw [joined, ← bytes, List.reverse_reverse, List.append_assoc] at cutJoined
  have newlines' : ∀ token ∈ breaks.map (·.moved (.behind (byteLength (first.toList ++ ['\n']))
      scan.cursor.line)), token.kind = .newline := by
    intro token ht
    obtain ⟨token, mem, rfl⟩ := List.mem_map.1 ht
    exact newlines token mem
  have behind := readStatements_behind front scan.cursor.line cut' nodes'
  rw [List.map_append, readStatements_skipNewlines (skipNewlines_append newlines' _)] at behind
  exact ofSource_eq_ok_iff.2 ⟨_, cutJoined,
    readStatements_ahead whole cut comes.reached nodes newline newlines' isDedent behind⟩

/-- The first source ends inside a block, and the second one starts with an empty line. -/
theorem joined_block : ∃ sheet sheet' : Stylesheet, Stylesheet.ofSource "if a\n  b c" = .ok sheet ∧
    Stylesheet.ofSource "\nd\n  e f" = .ok sheet' ∧
    Stylesheet.ofSource "if a\n  b c\n\nd\n  e f" =
      .ok ⟨sheet.nodes ++ raisedNodes 2 sheet'.nodes⟩ := by
  have cut : tokenize "if a\n  b c" = .ok ([⟨.ident "if", ⟨0, 2, 1, 1⟩⟩, ⟨.ident "a", ⟨3, 4, 1, 4⟩⟩,
      ⟨.newline, ⟨4, 5, 1, 6⟩⟩, ⟨.indent, ⟨7, 7, 2, 3⟩⟩, ⟨.ident "b", ⟨7, 8, 2, 3⟩⟩,
      ⟨.ident "c", ⟨9, 10, 2, 5⟩⟩, ⟨.dedent, ⟨10, 10, 2, 6⟩⟩] ++
      [⟨.endOfInput, ⟨10, 10, 2, 6⟩⟩]) := by
    decide +kernel
  have accepted : (Stylesheet.ofSource "if a\n  b c").isOk = true := by decide +kernel
  have accepted' : (Stylesheet.ofSource "\nd\n  e f").isOk = true := by decide +kernel
  cases read : Stylesheet.ofSource "if a\n  b c" with
  | error fault =>
    rw [read] at accepted
    cases accepted
  | ok sheet =>
    cases read' : Stylesheet.ofSource "\nd\n  e f" with
    | error fault =>
      rw [read'] at accepted'
      cases accepted'
    | ok sheet' =>
      have joined := Stylesheet.ofSource_joined read read' cut (by decide) (by decide)
      exact ⟨sheet, sheet', rfl, rfl, joined⟩

end StylusToScss
