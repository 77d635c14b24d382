import StylusToScss.Proofs.Statement.SourceTexts
import StylusToScss.Proofs.Value.Moved

/-!
# Lines of a text within a source

An `Embedding` is a text that stands as a part in a whole source. The readers of a line find in the
whole what they find in the part, with its lines raised, if the same texts are cut out of both
sources. There is one theorem for each reader.
-/

namespace StylusToScss

variable {tokens rest line piece : List Token} {token first keyword : Token} {number : Nat}

/-- A text that is a part of a whole source. Behind the tokens of the part stand others in the
whole, which belong to nothing that is open in the part. Where the embedding is `strict`, failures
are also those of the part; so its lines are not moved. -/
structure Embedding where
  part : String
  whole : String
  move : Move
  more : List Token
  starts : ∀ token ∈ more.head?, token.kind ≠ .newline ∧ token.kind ≠ .indent ∧
    token.kind.isWord "else" = false
  strict : Prop
  unmoved : strict → move.Still

namespace Embedding

variable (e : Embedding)

/-- What is read in the whole is what is read in the part, raised. -/
abbrev Gives {α : Type} (raise : α → α) (x x' : Read α) : Prop :=
  Carries e.strict (fun a a' => a' = raise a) x x'

/-- The tokens are cut out of both sources as the same text. -/
def SameText (piece : List Token) : Prop :=
  e.Gives id (rawText e.part piece) (rawText e.whole (piece.map (·.moved e.move)))

theorem unmoved_lines (strict : e.strict) : e.move.lines = 0 :=
  congrArg Prod.fst (e.unmoved strict)

theorem unmoved_column (strict : e.strict) (token : Token) :
    (token.moved e.move).span.column = token.span.column := by
  show e.move.column _ _ = _
  rw [(Prod.mk.inj (e.unmoved strict)).2]

/-- A failure at a token. -/
theorem fault {α β : Type} {good : α → β → Prop} (token : Token) (cause : ParseFault) :
    Carries e.strict good (.error (token.fault cause))
      (.error ((token.moved e.move).fault cause)) :=
  fun strict => congrArg Except.error (token.fault_moved (e.unmoved strict) cause)

end Embedding

/-! ## Tokens of a line -/

section
variable {move : Move}

theorem withoutSemicolons_moved (line : List Token) :
    withoutSemicolons (line.map (·.moved move)) =
      (withoutSemicolons line).map (·.moved move) := by
  unfold withoutSemicolons
  rw [← List.map_reverse, List.dropWhile_map, ← List.map_reverse]
  rfl

theorem endsWithComma_moved (line : List Token) :
    endsWithComma (line.map (·.moved move)) = endsWithComma line := by
  unfold endsWithComma
  rw [List.getLast?_map]
  cases line.getLast? <;> rfl

theorem touchingRun_moved (line : List Token) :
    touchingRun (line.map (·.moved move)) = touchingRun line := by
  fun_induction touchingRun line with
  | case1 | case2 => rfl
  | case3 token next rest touches ih =>
    rw [List.map_cons] at ih
    rw [List.map_cons, List.map_cons, touchingRun, token.touches_moved, if_pos touches, ih]
  | case4 token next rest apart =>
    rw [List.map_cons, List.map_cons, touchingRun, token.touches_moved, if_neg apart]

theorem closingParen?_moved (depth : Nat) (tokens : List Token) :
    closingParen? depth (tokens.map (·.moved move)) = closingParen? depth tokens := by
  induction tokens generalizing depth with
  | nil => rfl
  | cons token rest ih =>
    obtain ⟨kind, span⟩ := token
    cases kind with
    | rightParen =>
      show (if depth ≤ 1 then some 0 else _) = if depth ≤ 1 then some 0 else _
      rw [ih]
    | _ => exact congrArg (Option.map (· + 1)) (ih _)

theorem commaPieces_moved (depth : Nat) (tokens : List Token) :
    commaPieces depth (tokens.map (·.moved move)) =
      (commaPieces depth tokens).map (List.map (·.moved move)) := by
  have cons (token : Token) (pieces : List (List Token)) :
      consPiece (token.moved move) (pieces.map (List.map (·.moved move))) =
        (consPiece token pieces).map (List.map (·.moved move)) := by
    cases pieces <;> rfl
  induction tokens generalizing depth with
  | nil => rfl
  | cons token rest ih =>
    obtain ⟨kind, span⟩ := token
    cases kind with
    | comma =>
      show (if depth = 0 then _ else _) = List.map _ (if depth = 0 then _ else _)
      split
      · rw [ih]
        rfl
      · rw [ih]
        exact cons ⟨.comma, span⟩ _
    | leftParen => exact (congrArg _ (ih _)).trans (cons ⟨.leftParen, span⟩ _)
    | _ => exact (congrArg _ (ih _)).trans (cons ⟨_, span⟩ _)

theorem definitionName?_moved (tokens : List Token) :
    definitionName? (tokens.map (·.moved move)) = definitionName? tokens := by
  match tokens with
  | [] | [_] => rfl
  | ⟨kind, span⟩ :: openParen :: rest =>
    cases kind with
    | ident word =>
      have touches := @Token.touches_moved move ⟨.ident word, span⟩ openParen
      have closing := @closingParen?_moved move 0 (openParen :: rest)
      show (if (openParen.kind == .leftParen &&
        (Token.moved move ⟨.ident word, span⟩).touches (openParen.moved move) &&
        closingParen? 0 ((openParen :: rest).map (·.moved move)) ==
          some (rest.map (·.moved move)).length) = true then some word else none) = _
      rw [touches, closing, List.length_map]
      rfl
    | _ => rfl

theorem startsCall_moved (tokens : List Token) :
    startsCall (tokens.map (·.moved move)) = startsCall tokens := by
  match tokens with
  | [] | [_] => rfl
  | name :: openParen :: rest =>
    show (_ && _ && (name.moved move).touches (openParen.moved move)) = _
    rw [name.touches_moved]
    rfl

theorem stringLiterals?_moved (tokens : List Token) (number : Nat) :
    stringLiterals? (tokens.map (·.moved move)) (number + move.lines) =
      (stringLiterals? tokens number).map (List.map (·.renumbered (· + move.lines))) := by
  have cons (value : String) (quote : Char) (span : Span) (rest : List Token) (number : Nat) :
      stringLiterals? (⟨.string value quote, span⟩ :: rest) number =
        (stringLiterals? rest number).map (⟨value, some quote, number⟩ :: ·) := by
    unfold stringLiterals?
    rw [List.mapM_cons, Option.map_eq_bind]
    rfl
  induction tokens with
  | nil => rfl
  | cons token rest ih =>
    obtain ⟨kind, span⟩ := token
    cases kind with
    | string value quote =>
      rw [cons, List.map_cons]
      refine (cons value quote _ _ _).trans ?_
      rw [ih, Option.map_map, Option.map_map]
      rfl
    | _ => rfl

theorem collapsed_raised (n : Nat) (expression : Expression) :
    (expression.raised n).collapsed = expression.collapsed.raised n := by
  obtain ⟨nodes, isList, parenthesized, line⟩ := expression
  match nodes with
  | [] => rfl
  | [node] => cases isList <;> cases parenthesized <;> rfl
  | _ :: _ :: _ => rfl

theorem literalSegment_raised (text : List Char) (number n : Nat) :
    literalSegment text (number + n) = raisedNodes n (literalSegment text number) := by
  unfold literalSegment
  split <;> rfl

theorem segmentsFrom_raised (whole : List Char) (number n : Nat) (text : List Char) :
    segmentsFrom whole (number + n) text =
      (segmentsFrom whole number text).map (raisedNodes n) := by
  fun_induction segmentsFrom whole number text with
  | case1 text plain =>
    rw [segmentsFrom]
    split
    · rw [literalSegment_raised]
      rfl
    · next found => rw [plain] at found; cases found
  | case2 text c inside found unclosed =>
    rw [segmentsFrom]
    split
    · next plain => rw [found] at plain; cases plain
    · next found' =>
      rw [found] at found'
      cases found'
      split
      · rfl
      · next closed => rw [unclosed] at closed; cases closed
  | case3 text c inside found d rest closed name empty =>
    rw [segmentsFrom]
    split
    · next plain => rw [found] at plain; cases plain
    · next found' =>
      rw [found] at found'
      cases found'
      split
      · next unclosed => rw [closed] at unclosed; cases unclosed
      · simp only
        rw [if_pos empty]
        rfl
  | case4 text c inside found d rest closed name some ih =>
    rw [segmentsFrom]
    split
    · next plain => rw [found] at plain; cases plain
    · next found' =>
      rw [found] at found'
      cases found'
      split
      · next unclosed => rw [closed] at unclosed; cases unclosed
      · next closed' =>
        rw [closed] at closed'
        cases closed'
        simp only
        rw [if_neg some, ih]
        cases segmentsFrom whole number rest with
        | error cause => rfl
        | ok more =>
          show Except.ok _ = Except.ok (renumberedNodes (· + n) (_ ++ _ :: more))
          rw [renumberedNodes_append, literalSegment_raised]
          rfl

end

/-! ## Readers of a line -/

/-- The head of a loop with its lines raised. -/
def LoopHead.raised (n : Nat) (head : LoopHead) : LoopHead :=
  { head with source := head.source.raised n }

namespace Embedding

variable (e : Embedding)

theorem gives_tokenAt (tokens : List Token) (index : Nat) :
    e.Gives (·.moved e.move) (tokenAt tokens index)
      (tokenAt (tokens.map (·.moved e.move)) index) := by
  unfold tokenAt
  rw [List.getElem?_map]
  cases tokens[index]? with
  | some token => exact .ok rfl
  | none => exact .error _

theorem carries_tokensBetween (tokens : List Token) (start stop : Nat) :
    Carries e.strict (fun part part' => part = (tokens.take stop).drop start ∧
      part' = part.map (·.moved e.move)) (tokensBetween tokens start stop)
      (tokensBetween (tokens.map (·.moved e.move)) start stop) := by
  unfold tokensBetween
  rw [List.length_map]
  split
  · refine .ok ⟨rfl, ?_⟩
    rw [List.map_drop, List.map_take]
  · exact .error _

theorem gives_ofTokens (some : tokens ≠ []) (number : Nat) :
    e.Gives (Expression.raised e.move.lines) (Expression.ofTokens tokens number)
      (Expression.ofTokens (tokens.map (·.moved e.move)) (number + e.move.lines)) :=
  (Expression.moves_ofTokens some number).of_imp e.unmoved

theorem gives_valueOf (tokens : List Token) (anchor : Token) (number : Nat) :
    e.Gives (Expression.raised e.move.lines) (valueOf tokens anchor number)
      (valueOf (tokens.map (·.moved e.move)) (anchor.moved e.move)
        (number + e.move.lines)) := by
  unfold valueOf
  rw [List.isEmpty_map]
  split
  · exact e.fault anchor _
  · next some => exact e.gives_ofTokens (by simpa using some) number

theorem gives_readImport (first : Token)
    (texts : stringLiterals? rest number = none → e.SameText rest) :
    e.Gives (Node.raised e.move.lines) (readImport e.part first rest number)
      (readImport e.whole (first.moved e.move) (rest.map (·.moved e.move))
        (number + e.move.lines)) := by
  unfold readImport
  rw [List.isEmpty_map]
  split
  · exact e.fault first _
  · rw [stringLiterals?_moved]
    cases quoted : stringLiterals? rest number with
    | some path => exact .ok rfl
    | none =>
      refine (texts quoted).bind ?_
      rintro text _ rfl
      exact .ok rfl

theorem gives_readCondition (keyword : Token) (rest : List Token) :
    e.Gives (Node.raised e.move.lines) (readCondition keyword rest)
      (readCondition (keyword.moved e.move) (rest.map (·.moved e.move))) := by
  unfold readCondition
  refine (e.gives_valueOf rest keyword keyword.span.line).bind ?_
  rintro condition _ rfl
  rw [collapsed_raised, Token.kind_moved]
  split
  · exact .ok rfl
  · exact .ok rfl

theorem gives_readLoopKey (tokens : List Token) :
    e.Gives (fun (key, rest) => (key, rest.map (·.moved e.move))) (readLoopKey tokens)
      (readLoopKey (tokens.map (·.moved e.move))) := by
  cases tokens with
  | nil => exact .ok rfl
  | cons token rest =>
    obtain ⟨kind, span⟩ := token
    cases kind with
    | comma =>
      cases rest with
      | nil => exact e.fault ⟨.comma, span⟩ _
      | cons second rest =>
        obtain ⟨kind', span'⟩ := second
        cases kind' with
        | ident key => exact .ok rfl
        | _ => exact e.fault ⟨.comma, span⟩ _
    | _ => exact .ok rfl

theorem gives_readLoopHead (first : Token) (rest : List Token) (number : Nat) :
    e.Gives (LoopHead.raised e.move.lines) (readLoopHead first rest number)
      (readLoopHead (first.moved e.move) (rest.map (·.moved e.move))
        (number + e.move.lines)) := by
  cases rest with
  | nil => exact e.fault first _
  | cons token rest =>
    obtain ⟨kind, span⟩ := token
    cases kind with
    | ident item =>
      refine (e.gives_readLoopKey rest).bind ?_
      rintro ⟨key, rest⟩ _ rfl
      simp only
      split
      · next span rest =>
        refine (e.gives_valueOf rest ⟨.ident "in", span⟩ number).bind ?_
        rintro value _ rfl
        exact .ok rfl
      · next other =>
        split
        · next span' rest' here =>
          obtain ⟨⟨_, span⟩, behind, rfl, moved, -⟩ := List.map_eq_cons_iff.1 here
          cases congrArg Token.kind moved
          exact (other span behind rfl).elim
        · exact e.fault first _
    | _ => exact e.fault first _

theorem gives_readAssignment (name : String) (op : Token) (rest : List Token) (number : Nat) :
    e.Gives (Node.raised e.move.lines) (readAssignment name op rest number)
      (readAssignment name (op.moved e.move) (rest.map (·.moved e.move))
        (number + e.move.lines)) := by
  unfold readAssignment
  refine (e.gives_valueOf rest op number).bind ?_
  rintro ⟨nodes, isList, parenthesized, line⟩ _ rfl
  refine .ok ?_
  rw [Token.kind_moved]
  split
  · have marked := renumberedNodes_append (f := (· + e.move.lines)) nodes
      [.plain "!default" number]
    exact congrArg (fun nodes => Node.bound name (.expression ⟨nodes, _, _, _⟩) _) marked.symm
  · rfl

theorem gives_readParameter (number : Nat) (tokens : List Token) :
    e.Gives (Node.raised e.move.lines) (readParameter number tokens)
      (readParameter (number + e.move.lines) (tokens.map (·.moved e.move))) := by
  cases tokens with
  | nil =>
    intro strict
    rw [e.unmoved_lines strict]
    rfl
  | cons token rest =>
    obtain ⟨kind, span⟩ := token
    cases kind with
    | ident name =>
      cases rest with
      | nil => exact .ok rfl
      | cons second rest =>
        obtain ⟨kind', span'⟩ := second
        cases kind' with
        | dotDotDot =>
          cases rest with
          | nil => exact .ok rfl
          | cons _ _ => exact e.fault ⟨.ident name, span⟩ _
        | assign =>
          refine (e.gives_valueOf rest ⟨.assign, span'⟩ number).bind ?_
          rintro value _ rfl
          exact .ok (congrArg (Node.bound name · _) Node.renumbered_expression.symm)
        | _ => exact e.fault ⟨.ident name, span⟩ _
    | _ => exact e.fault ⟨_, span⟩ _

theorem gives_readParameters (tokens : List Token) (number : Nat) :
    e.Gives (Arguments.renumbered (· + e.move.lines)) (readParameters tokens number)
      (readParameters (tokens.map (·.moved e.move)) (number + e.move.lines)) := by
  unfold readParameters
  rw [List.isEmpty_map]
  split
  · exact .ok rfl
  · rw [commaPieces_moved, List.mapM_map]
    refine (Carries.mapM fun piece _ => e.gives_readParameter number piece).bind ?_
    rintro params _ rfl
    refine .ok ?_
    rw [Arguments.renumbered, renumberedNodes_eq_map]

theorem gives_splitSegments (text : List Char) (number : Nat) (first : Token) :
    e.Gives (raisedNodes e.move.lines) (splitSegments text number first.span.column)
      (splitSegments text (number + e.move.lines) (first.moved e.move).span.column) := by
  unfold splitSegments
  rw [segmentsFrom_raised]
  cases segmentsFrom text number text with
  | ok segments => exact .ok rfl
  | error cause =>
    intro strict
    rw [e.unmoved_lines strict, e.unmoved_column strict]
    rfl

theorem gives_readSelectorLine (texts : e.SameText tokens) :
    e.Gives (List.map (·.renumbered (· + e.move.lines))) (readSelectorLine e.part tokens)
      (readSelectorLine e.whole (tokens.map (·.moved e.move))) := by
  unfold readSelectorLine
  refine (e.gives_tokenAt tokens 0).bind ?_
  rintro first _ rfl
  refine texts.bind ?_
  rintro _ text rfl
  have each (text : List Char) : e.Gives (Selector.renumbered (· + e.move.lines))
      (do return ⟨← splitSegments text first.span.line first.span.column, first.span.line⟩)
      (do return ⟨← splitSegments text (first.span.line + e.move.lines)
        (first.moved e.move).span.column, first.span.line + e.move.lines⟩) := by
    refine (e.gives_splitSegments text _ first).bind ?_
    rintro segments _ rfl
    exact .ok rfl
  exact Carries.mapM fun text _ => each text

theorem gives_propertyOf {name : List Token} (texts : e.SameText name) (value : List Token)
    (anchor : Token) (number : Nat) :
    e.Gives (Node.raised e.move.lines) (propertyOf e.part name value anchor number)
      (propertyOf e.whole (name.map (·.moved e.move)) (value.map (·.moved e.move))
        (anchor.moved e.move) (number + e.move.lines)) := by
  unfold propertyOf
  refine texts.bind ?_
  rintro _ text rfl
  refine (e.gives_tokenAt name 0).bind ?_
  rintro first _ rfl
  refine (e.gives_splitSegments _ _ first).bind ?_
  rintro segments _ rfl
  refine (e.gives_valueOf value anchor number).bind ?_
  rintro value _ rfl
  exact .ok Node.renumbered_property.symm

theorem gives_readExpression (tokens : List Token) (first : Token) (number : Nat) :
    e.Gives (Node.raised e.move.lines) (readExpression tokens first number)
      (readExpression (tokens.map (·.moved e.move)) (first.moved e.move)
        (number + e.move.lines)) := by
  unfold readExpression
  refine (e.gives_valueOf tokens first number).bind ?_
  rintro value _ rfl
  exact .ok Node.renumbered_expression.symm

theorem gives_readColonProperty {colon : Nat} (texts : e.SameText (tokens.take colon))
    (number : Nat) :
    e.Gives (Node.raised e.move.lines) (readColonProperty e.part tokens colon number)
      (readColonProperty e.whole (tokens.map (·.moved e.move)) colon
        (number + e.move.lines)) := by
  unfold readColonProperty
  refine (e.gives_tokenAt tokens colon).bind ?_
  rintro anchor _ rfl
  refine (e.carries_tokensBetween tokens 0 colon).bind ?_
  rintro _ _ ⟨rfl, rfl⟩
  rw [List.length_map]
  refine (e.carries_tokensBetween tokens _ _).bind ?_
  rintro value _ ⟨-, rfl⟩
  rw [List.isEmpty_map]
  split
  · refine texts.bind ?_
    rintro _ text rfl
    exact e.fault anchor _
  · exact e.gives_propertyOf texts value anchor number

theorem gives_readBlankProperty {run : Nat} (texts : e.SameText (tokens.take run)) (number : Nat) :
    e.Gives (Node.raised e.move.lines) (readBlankProperty e.part tokens run number)
      (readBlankProperty e.whole (tokens.map (·.moved e.move)) run
        (number + e.move.lines)) := by
  unfold readBlankProperty
  refine (e.carries_tokensBetween tokens 0 run).bind ?_
  rintro _ _ ⟨rfl, rfl⟩
  rw [List.length_map]
  refine (e.carries_tokensBetween tokens _ _).bind ?_
  rintro value _ ⟨-, rfl⟩
  refine (e.gives_tokenAt tokens (run - 1)).bind ?_
  rintro anchor _ rfl
  exact e.gives_propertyOf texts value anchor number

theorem gives_continuesExpression (tokens : List Token) (index : Nat) :
    e.Gives id (continuesExpression tokens index)
      (continuesExpression (tokens.map (·.moved e.move)) index) := by
  unfold continuesExpression
  refine (e.gives_tokenAt tokens index).bind ?_
  rintro token _ rfl
  refine .ok ?_
  rw [List.getElem?_map, Token.kind_moved]
  cases tokens[index + 1]? with
  | none => rfl
  | some next =>
    rw [Option.map_some]
    simp only [token.touches_moved, id_eq]

theorem gives_readProperty (texts : e.SameText (propertyName tokens)) (number : Nat) :
    e.Gives (Node.raised e.move.lines) (readProperty e.part tokens number)
      (readProperty e.whole (tokens.map (·.moved e.move)) (number + e.move.lines)) := by
  unfold propertyName at texts
  unfold readProperty
  refine (e.gives_tokenAt tokens 0).bind ?_
  rintro first _ rfl
  have colons : ((tokens.take (touchingRun tokens)).map (·.moved e.move)).findIdx?
      (fun token => token.kind == .colon) =
      (tokens.take (touchingRun tokens)).findIdx? fun token => token.kind == .colon :=
    List.findIdx?_map ..
  simp only [touchingRun_moved, List.length_map, ← List.map_take, colons,
    Token.kind_moved] at texts ⊢
  cases found : (tokens.take (touchingRun tokens)).findIdx? fun token => token.kind == .colon with
  | some colon =>
    rw [found] at texts
    simp only at texts ⊢
    split
    · exact e.fault first _
    · exact e.gives_readColonProperty texts number
  | none =>
    rw [found] at texts
    simp only at texts ⊢
    split
    · exact e.gives_readExpression tokens first number
    · refine (e.gives_continuesExpression tokens _).bind ?_
      rintro _ continues rfl
      split
      · exact e.gives_readExpression tokens first number
      · exact e.gives_readBlankProperty texts number

end Embedding
end StylusToScss
