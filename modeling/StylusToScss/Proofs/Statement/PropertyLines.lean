import Mathlib.Data.List.Chain
import StylusToScss.Proofs.Statement.Amended

/-!
# Lines that are properties

`PropertyLine` says which lines are read as a property: they start with no keyword, assign nothing,
are no call, do not end with a comma, and have no block. The name of a property without a colon is
the first run of its line (`PropertyLine.name`), and with a colon behind the run it is the same
property (`PropertyLine.colon`).
-/

namespace StylusToScss

variable {source part whole : String} {first token left mark : Token}
  {tokens rest line after name value : List Token} {segments : List Node} {number : Nat}

/-! ## Runs of tokens that touch -/

/-- The first run of a line: its tokens touch, and the last one does not touch what stands behind
it. -/
structure IsRun (run rest : List Token) : Prop where
  some : run ≠ []
  chain : run.IsChain fun token next => token.touches next = true
  apart : ∀ token ∈ run.getLast?, ∀ next ∈ rest.head?, token.touches next = false

theorem IsRun.touchingRun {run rest : List Token} (h : IsRun run rest) :
    touchingRun (run ++ rest) = run.length := by
  obtain ⟨some, chain, apart⟩ := h
  induction run with
  | nil => exact absurd rfl some
  | cons token run ih =>
    cases run with
    | nil =>
      cases rest with
      | nil => rfl
      | cons next rest =>
        have apart := apart token rfl next rfl
        show (if token.touches next then _ else 1) = 1
        rw [if_neg (by simp [apart])]
    | cons next run =>
      obtain ⟨touches, chain⟩ := List.isChain_cons_cons.1 chain
      have ih := ih (List.cons_ne_nil _ _) chain fun last hl => apart last (by simpa using hl)
      rw [List.cons_append, List.cons_append, StylusToScss.touchingRun, if_pos touches]
      exact congrArg (· + 1) ih

theorem isRun_take (some : tokens ≠ []) :
    IsRun (tokens.take (touchingRun tokens)) (tokens.drop (touchingRun tokens)) := by
  fun_induction touchingRun tokens with
  | case1 => exact absurd rfl some
  | case2 token => exact ⟨List.cons_ne_nil _ _, by simp, by simp⟩
  | case3 token next rest touches ih =>
    obtain ⟨some, chain, apart⟩ := ih (List.cons_ne_nil _ _)
    rw [List.take_succ_cons, List.drop_succ_cons]
    refine ⟨List.cons_ne_nil _ _, List.isChain_cons.2 ⟨?_, chain⟩, ?_⟩
    · intro other ho
      rw [List.head?_take] at ho
      split at ho
      · cases ho
      · cases ho
        exact touches
    · intro last hl
      refine apart last ?_
      rw [List.getLast?_cons, List.getLast?_eq_some_getLast some] at hl
      rw [List.getLast?_eq_some_getLast some]
      exact hl
  | case4 token next rest apart =>
    refine ⟨List.cons_ne_nil _ _, by simp, ?_⟩
    rintro _ ⟨⟩ _ ⟨⟩
    exact Bool.eq_false_iff.2 apart

/-- A token that touches a run belongs to it. -/
theorem IsRun.snoc {run rest rest' : List Token} (h : IsRun run rest)
    (touches : ∀ last ∈ run.getLast?, last.touches token = true)
    (apart : ∀ next ∈ rest'.head?, token.touches next = false) : IsRun (run ++ [token]) rest' where
  some := List.append_ne_nil_of_right_ne_nil _ (List.cons_ne_nil _ _)
  chain := by
    refine List.isChain_append.2 ⟨h.chain, List.isChain_singleton _, ?_⟩
    rintro last hl _ ⟨⟩
    exact touches last hl
  apart := by
    intro last hl
    rw [List.getLast?_concat] at hl
    cases hl
    exact apart

/-! ## Which lines are properties -/

/-- The line is read as a property, if it has no block. -/
structure PropertyLine (source : String) (first : Token) (line : List Token) (node : Node) :
    Prop where
  plain : ∀ word, first.kind ≠ .atWord word
  other : ∀ word ∈ keywords, first.kind ≠ .ident word
  quiet : ∀ name, first.kind = .ident name → assigns line = false
  call : startsCall (first :: line) = false
  comma : endsWithComma (first :: line) = false
  read : readProperty source (first :: line) first.span.line = .ok node

theorem PropertyLine.readNode {node : Node} (h : PropertyLine source first line node)
    (alone : blockFollows after = false) :
    readNode source first line after = .ok (.nothing node) := by
  rw [readNode_declaration h.plain h.other, readDeclaration_other h.quiet, alone, h.call, h.comma,
    h.read]
  rfl

section
variable {value : Expression}

theorem not_property_of_readConditional {taken : Taken 0 Node after}
    (read : readConditional source first line after = .ok taken) :
    taken.value ≠ .property segments value number := by
  unfold readConditional at read
  obtain ⟨condition, -, read⟩ := bind_eq_ok_iff.1 read
  obtain ⟨block, -, read⟩ := bind_eq_ok_iff.1 read
  obtain ⟨alternatives, -, read⟩ := bind_eq_ok_iff.1 read
  cases read
  rintro ⟨⟩

theorem not_property_of_readImport {node : Node} {at_ : Nat}
    (read : readImport source first line at_ = .ok node) :
    node ≠ .property segments value number := by
  unfold readImport at read
  split at read
  · cases read
  · split at read
    · cases read
      rintro ⟨⟩
    · obtain ⟨text, -, read⟩ := bind_eq_ok_iff.1 read
      cases read
      rintro ⟨⟩

theorem not_property_of_readGroup {at_ : Nat} {taken : Taken 0 Node after}
    (read : readGroup source at_ line after = .ok taken) :
    taken.value ≠ .property segments value number := by
  unfold readGroup at read
  obtain ⟨selectors, -, read⟩ := bind_eq_ok_iff.1 read
  obtain ⟨block, -, read⟩ := bind_eq_ok_iff.1 read
  cases read
  rintro ⟨⟩

theorem not_property_of_readExpression {node : Node} {at_ : Nat}
    (read : readExpression tokens first at_ = .ok node) :
    node ≠ .property segments value number := by
  unfold readExpression at read
  obtain ⟨value, -, read⟩ := bind_eq_ok_iff.1 read
  cases read
  rintro ⟨⟩

theorem propertyLine_of_readDeclaration {taken : Taken 0 Node after}
    (plain : ∀ word, first.kind ≠ .atWord word)
    (other : ∀ word ∈ keywords, first.kind ≠ .ident word)
    (read : readDeclaration source first line after = .ok taken)
    (property : taken.value = .property segments value number) :
    blockFollows after = false ∧ PropertyLine source first line taken.value := by
  by_cases assignment : assigns line = true ∧ ∃ name, first.kind = .ident name
  · exfalso
    obtain ⟨assigned, name, kind⟩ := assignment
    cases line with
    | nil => cases assigned
    | cons op rest =>
      have isOp : op.kind = .assign ∨ op.kind = .conditionalAssign := by
        simpa [assigns] using assigned
      rw [readDeclaration_assigns kind isOp] at read
      obtain ⟨node, assigned, read⟩ := bind_eq_ok_iff.1 read
      unfold readAssignment at assigned
      obtain ⟨value, -, assigned⟩ := bind_eq_ok_iff.1 assigned
      cases assigned
      cases read
      cases property
  · have quiet : ∀ name, first.kind = .ident name → assigns line = false :=
      fun name kind => Bool.eq_false_iff.2 fun assigned => assignment ⟨assigned, name, kind⟩
    rw [readDeclaration_other quiet] at read
    split at read
    · exfalso
      split at read
      · obtain ⟨inside, -, read⟩ := bind_eq_ok_iff.1 read
        obtain ⟨params, -, read⟩ := bind_eq_ok_iff.1 read
        obtain ⟨block, -, read⟩ := bind_eq_ok_iff.1 read
        cases read
        cases property
      · exact not_property_of_readGroup read property
    · next alone =>
      split at read
      · exfalso
        obtain ⟨node, isExpression, read⟩ := bind_eq_ok_iff.1 read
        cases read
        exact not_property_of_readExpression isExpression property
      · next call =>
        split at read
        · exact absurd property (not_property_of_readGroup read)
        · next comma =>
          obtain ⟨node, isProperty, read⟩ := bind_eq_ok_iff.1 read
          cases read
          exact ⟨by simpa using alone, plain, other, quiet, by simpa using call,
            by simpa using comma, isProperty⟩

/-- What is read as a property is a line of the form, without a block. -/
theorem propertyLine_of_readNode {taken : Taken 0 Node after}
    (read : readNode source first line after = .ok taken)
    (property : taken.value = .property segments value number) :
    blockFollows after = false ∧ PropertyLine source first line taken.value := by
  by_cases keyword : ∃ word ∈ keywords, first.kind = .ident word
  · exfalso
    obtain ⟨word, mem, kind⟩ := keyword
    have words : word = "if" ∨ word = "unless" ∨ word = "else" ∨ word = "for" ∨
        word = "return" := by
      simpa [keywords] using mem
    unfold StylusToScss.readNode at read
    simp only [kind] at read
    rcases words with rfl | rfl | rfl | rfl | rfl
    · exact not_property_of_readConditional read property
    · exact not_property_of_readConditional read property
    · cases read
    · obtain ⟨head, -, read⟩ := bind_eq_ok_iff.1 read
      obtain ⟨block, -, read⟩ := bind_eq_ok_iff.1 read
      cases read
      cases property
    · obtain ⟨value, -, read⟩ := bind_eq_ok_iff.1 read
      cases read
      cases property
  · have other : ∀ word ∈ keywords, first.kind ≠ .ident word :=
      fun word mem kind => keyword ⟨word, mem, kind⟩
    by_cases isAtWord : ∃ word, first.kind = .atWord word
    · exfalso
      obtain ⟨word, kind⟩ := isAtWord
      unfold StylusToScss.readNode at read
      simp only [kind] at read
      split at read
      · obtain ⟨node, imported, read⟩ := bind_eq_ok_iff.1 read
        cases read
        exact not_property_of_readImport imported property
      · cases read
        cases property
    · have plain : ∀ word, first.kind ≠ .atWord word := fun word kind => isAtWord ⟨word, kind⟩
      rw [readNode_declaration plain other] at read
      exact propertyLine_of_readDeclaration plain other read property

/-! ## Properties without a colon -/

/-- The name of a property without a colon is the first run of its line. -/
theorem PropertyLine.run (h : PropertyLine source first line (.property segments value number))
    (plain : ∀ token ∈ (first :: line).take (touchingRun (first :: line)), token.kind ≠ .colon) :
    ∃ anchor, propertyOf source ((first :: line).take (touchingRun (first :: line)))
      ((first :: line).drop (touchingRun (first :: line))) anchor first.span.line =
        .ok (.property segments value number) := by
  have read := h.read
  have bounds := touchingRun_bounds (first :: line)
  unfold readProperty at read
  rw [tokenAt_zero, ok_bind] at read
  simp only at read
  split at read
  · next colon found =>
    obtain ⟨inside, isColon, -⟩ := List.findIdx?_eq_some_iff_getElem.1 found
    exact absurd (beq_iff_eq.1 isColon) (plain _ (List.getElem_mem inside))
  · split at read
    · exact absurd rfl (not_property_of_readExpression read)
    · obtain ⟨continues, -, read⟩ := bind_eq_ok_iff.1 read
      split at read
      · exact absurd rfl (not_property_of_readExpression read)
      · unfold readBlankProperty at read
        rw [tokensBetween_eq_ok (Nat.zero_le _) bounds.1,
          tokensBetween_eq_ok bounds.1 (Nat.le_refl _), ok_bind, ok_bind, List.take_length,
          List.drop_zero] at read
        obtain ⟨anchor, -, read⟩ := bind_eq_ok_iff.1 read
        exact ⟨anchor, read⟩

theorem valueOf_anchor (some : tokens ≠ []) (anchor anchor' : Token) :
    valueOf tokens anchor number = valueOf tokens anchor' number := by
  have notEmpty : ¬ tokens.isEmpty = true := by simpa using some
  unfold valueOf
  rw [if_neg notEmpty, if_neg notEmpty]

/-- A property has a value. -/
theorem ne_nil_of_propertyOf {anchor : Token} {node : Node}
    (read : propertyOf source name tokens anchor number = .ok node) : tokens ≠ [] := by
  unfold propertyOf at read
  obtain ⟨_, -, read⟩ := bind_eq_ok_iff.1 read
  obtain ⟨_, -, read⟩ := bind_eq_ok_iff.1 read
  obtain ⟨_, -, read⟩ := bind_eq_ok_iff.1 read
  obtain ⟨_, valued, -⟩ := bind_eq_ok_iff.1 read
  rintro rfl
  cases valued

/-- The name and the value of a property, of which the value stands somewhere else in the whole. -/
theorem propertyOf_kept {move : Move} {anchor : Token} {node : Node}
    (front : Kept (rawText source name) (rawText whole name))
    (copies : move.Copies source whole tokens)
    (read : propertyOf source name tokens anchor number = .ok node) (anchor' : Token) :
    propertyOf whole name (tokens.map (·.moved move)) anchor' number = .ok node := by
  have some : tokens.map (·.moved move) ≠ [] :=
    mt List.map_eq_nil_iff.1 (ne_nil_of_propertyOf read)
  unfold propertyOf at read ⊢
  obtain ⟨text, raw, read⟩ := bind_eq_ok_iff.1 read
  obtain ⟨first, head, read⟩ := bind_eq_ok_iff.1 read
  obtain ⟨parts, split, read⟩ := bind_eq_ok_iff.1 read
  obtain ⟨result, valued, read⟩ := bind_eq_ok_iff.1 read
  cases read
  obtain ⟨_, raw', rfl⟩ := front.of_eq_ok raw
  obtain ⟨_, valued', rfl⟩ := (copies.kept_valueOf anchor number).of_eq_ok valued
  rw [raw', head, ok_bind, ok_bind, split, ok_bind, valueOf_anchor some _ (anchor.moved move),
    valued']
  rfl

/-- A colon behind the first run of a line divides it into a name and a value. -/
theorem readProperty_marked (isRun : IsRun (name ++ [mark]) tokens) (some : name ≠ [])
    (plain : ∀ token ∈ name, token.kind ≠ .colon) (isColon : mark.kind = .colon)
    (valued : tokens ≠ []) : readProperty source (name ++ mark :: tokens) number =
      propertyOf source name tokens mark number := by
  obtain ⟨first, more, here⟩ := List.exists_cons_of_ne_nil some
  have start : tokenAt (name ++ mark :: tokens) 0 = .ok first := by
    rw [here]
    exact tokenAt_zero first _
  have run : touchingRun (name ++ mark :: tokens) = name.length + 1 := by
    rw [List.append_cons, isRun.touchingRun, List.length_append]
    rfl
  have ahead : (name ++ mark :: tokens).take (name.length + 1) = name ++ [mark] := by
    rw [List.append_cons]
    exact List.take_left' (List.length_append ..)
  have found : (name ++ [mark]).findIdx? (fun token => token.kind == .colon) =
      .some name.length := by
    have none : name.findIdx? (fun token => token.kind == .colon) = .none := by
      refine List.findIdx?_eq_none_iff.2 fun token ht => ?_
      exact beq_eq_false_iff_ne.2 (plain token ht)
    rw [List.findIdx?_append, none, List.findIdx?_singleton, if_pos (by rw [isColon]; rfl)]
    simp
  have notFirst : name.length ≠ 0 := mt List.length_eq_zero_iff.1 some
  have anchor : tokenAt (name ++ mark :: tokens) name.length = .ok mark := by
    rw [tokenAt, List.getElem?_append_right (Nat.le_refl _), Nat.sub_self]
    rfl
  have bounds : name.length + 1 ≤ (name ++ mark :: tokens).length := by
    rw [List.length_append, List.length_cons]
    omega
  unfold readProperty
  rw [start, ok_bind]
  simp only [run, ahead, found, if_neg notFirst]
  unfold readColonProperty
  rw [anchor, tokensBetween_eq_ok (Nat.zero_le _) (Nat.le_of_succ_le bounds),
    tokensBetween_eq_ok bounds (Nat.le_refl _), ok_bind, ok_bind, ok_bind, List.take_length,
    List.drop_zero, List.take_left' rfl, List.append_cons,
    List.drop_left' (by rw [List.length_append]; rfl), if_neg (by simpa using valued)]

theorem startsCall_congr {line' : List Token} (second : line'.head? = line.head?) :
    startsCall (first :: line') = startsCall (first :: line) := by
  cases line <;> cases line' <;> cases second <;> rfl

theorem startsCall_other (second : line.head? = some mark) (other : mark.kind ≠ .leftParen) :
    startsCall (first :: line) = false := by
  cases line with
  | nil => cases second
  | cons next line =>
    cases second
    simp [startsCall, other]

/-- A line with a colon in it, and with the rest of its tokens moved, ends with a comma if it did
before. -/
theorem endsWithComma_marked {move : Move} (name : List Token) (mark : Token) (some : tokens ≠ []) :
    endsWithComma (name ++ mark :: tokens.map (·.moved move)) = endsWithComma (name ++ tokens) := by
  have some' : tokens.map (·.moved move) ≠ [] := mt List.map_eq_nil_iff.1 some
  unfold endsWithComma
  rw [List.append_cons, List.getLast?_append_of_ne_nil _ some', List.getLast?_map,
    List.getLast?_append_of_ne_nil _ some, List.getLast?_eq_some_getLast some]
  rfl

/-- With a mark behind the tokens of a name, the first token of the line stays, and the second one
stays or is the mark. -/
theorem exists_marked (more : List Token) (split : first :: line = name ++ [left] ++ tokens)
    (mark : Token) : ∃ line', name ++ [left] ++ mark :: more = first :: line' ∧
      (line'.head? = some mark ∨ line'.head? = line.head?) := by
  cases name with
  | nil =>
    cases split
    exact ⟨_, rfl, .inl rfl⟩
  | cons other others =>
    cases split
    refine ⟨_, rfl, .inr ?_⟩
    cases others <;> rfl

/-- With a colon behind its name, a property without one is read as the same property. -/
theorem PropertyLine.colon {move : Move}
    (h : PropertyLine source first line (.property segments value number))
    (run : (first :: line).take (touchingRun (first :: line)) = name ++ [left])
    (split : first :: line = name ++ [left] ++ tokens)
    (plain : ∀ token ∈ name ++ [left], token.kind ≠ .colon)
    (isColon : mark.kind = .colon) (touches : left.touches mark = true)
    (apart : ∀ next ∈ tokens.head?, mark.touches (next.moved move) = false)
    (front : Kept (rawText source (name ++ [left])) (rawText whole (name ++ [left])))
    (copies : move.Copies source whole tokens) :
    ∃ line', name ++ [left] ++ mark :: tokens.map (·.moved move) = first :: line' ∧
      PropertyLine whole first line' (.property segments value number) := by
  have behind : (first :: line).drop (touchingRun (first :: line)) = tokens := by
    have both := List.take_append_drop (touchingRun (first :: line)) (first :: line)
    rw [run, split] at both
    rw [split]
    exact List.append_cancel_left both
  have isRun := isRun_take (List.cons_ne_nil first line)
  obtain ⟨anchor, read⟩ := h.run (run.symm ▸ plain)
  rw [run, behind] at read isRun
  have valued := ne_nil_of_propertyOf read
  have isRun' : IsRun (name ++ [left] ++ [mark]) (tokens.map (·.moved move)) := by
    refine isRun.snoc ?_ ?_
    · intro last hl
      rw [List.getLast?_concat] at hl
      cases hl
      exact touches
    · intro next hn
      rw [List.head?_map, Option.mem_def, Option.map_eq_some_iff] at hn
      obtain ⟨earlier, head, rfl⟩ := hn
      exact apart earlier head
  have valued' : tokens.map (·.moved move) ≠ [] := mt List.map_eq_nil_iff.1 valued
  obtain ⟨line', here, second⟩ := exists_marked (tokens.map (·.moved move)) split mark
  refine ⟨line', here, h.plain, h.other, ?_, ?_, ?_, ?_⟩
  · intro word kind
    have quiet := h.quiet word kind
    unfold assigns at quiet ⊢
    rcases second with second | second
    · rw [second]
      simp [isColon]
    · rw [second, quiet]
  · rcases second with second | second
    · exact startsCall_other second (by rw [isColon]; rintro ⟨⟩)
    · rw [startsCall_congr second, h.call]
  · rw [← here, endsWithComma_marked _ mark valued, ← split]
    exact h.comma
  · rw [← here, readProperty_marked isRun' (List.append_ne_nil_of_right_ne_nil _
      (List.cons_ne_nil _ _)) plain isColon valued']
    exact propertyOf_kept front copies read mark

end

end StylusToScss
