import StylusToScss.Proofs.Scss.Emission
import StylusToScss.Proofs.Scss.Marks

/-!
# Mixins and functions, returns and includes

What a tree is printed as, piece by piece: property declarations, definitions with what is printed
of their bodies, expressions that are statements, and other marks. The form of a definition is
known from the pieces of its body (`holdsProperty`), and the word before an expression from the form
of the nearest definition around it (`Prefixed`). `Node.Prints` says so for every part of a tree,
and `Stylesheet.convert_forms` that each tree that is converted is printed so. The form is found by
a recursion over the tree of its own (`setsProperty`), which comes to the same as what is printed.
-/

namespace StylusToScss

/-! ## Pieces -/

/-- A piece of what is printed. -/
inductive Piece where
  /-- A property, with the variable that its value binds. -/
  | declaration (marks : List Mark)
  | definition (line : Nat) (form : DefinitionForm) (name params : String) (body : List Piece)
  /-- An expression that is a statement, with the word before it. -/
  | expression (line : Nat) (word text : String)
  | other (marks : List Mark)

namespace Piece

/-- Whether the piece is a property. What is printed within a definition is no piece beside it. -/
def isDeclaration : Piece → Bool
  | declaration _ => true
  | _ => false

mutual

/-- The marks of a piece. -/
def marks : Piece → List Mark
  | declaration marks => marks
  | definition line form name params body =>
    .statement line :: .text (form.word ++ name ++ parenthesize params) :: enclosed (allMarks body)
  | expression line word text => [.statement line, .text (word ++ text ++ ";")]
  | other marks => marks

/-- The marks of pieces one after the other. -/
def allMarks : List Piece → List Mark
  | [] => []
  | piece :: rest => piece.marks ++ allMarks rest

end

theorem allMarks_append (a b : List Piece) : allMarks (a ++ b) = allMarks a ++ allMarks b := by
  induction a with
  | nil => rfl
  | cons piece rest ih => rw [List.cons_append, allMarks, allMarks, ih, List.append_assoc]

/-- Pieces between the braces of a block that is no definition. -/
def braced (body : List Piece) : List Piece := other [.opening] :: (body ++ [other [.closing]])

theorem allMarks_braced (body : List Piece) :
    allMarks (braced body) = enclosed (allMarks body) := by
  rw [braced, allMarks, allMarks_append]
  rfl

end Piece

open Piece

/-- Whether one of the pieces is a property. -/
def holdsProperty (pieces : List Piece) : Bool := pieces.any isDeclaration

theorem holdsProperty_append (a b : List Piece) :
    holdsProperty (a ++ b) = (holdsProperty a || holdsProperty b) :=
  List.any_append

theorem holdsProperty_cons (piece : Piece) (rest : List Piece) :
    holdsProperty (piece :: rest) = (piece.isDeclaration || holdsProperty rest) :=
  List.any_cons

theorem holdsProperty_braced (body : List Piece) :
    holdsProperty (braced body) = holdsProperty body := by
  rw [braced, holdsProperty_cons, holdsProperty_append]
  exact Bool.or_false _

/-! ## What is printed -/

/-- An expression that includes a mixin: a call, also where it is all of an expression without
parentheses. -/
def Node.Includes (node : Node) : Prop :=
  (∃ name arguments line, node = .call name arguments line) ∨
    ∃ name arguments callLine isList line,
      node = .expression ⟨[.call name arguments callLine], isList, false, line⟩

/-- The word before an expression that is a statement, where the nearest definition around it has
this form, if there is one. -/
structure Prefixed (within : Option DefinitionForm) (node : Node) (word : String) : Prop where
  returned : word = "@return " ↔ within = some .function
  included : within ≠ some .function → (word = "@include " ↔ node.Includes)
  bare : within ≠ some .function → ¬ node.Includes → word = ""

/-- Whether the node is an expression where it stands as a statement. -/
def Node.isExpression : Node → Bool
  | .ident _ _ _ _ | .expression _ | .call _ _ _ | .binary _ _ _ _ | .unary _ _ _ | .literal _
  | .measure _ _ _ | .boolean _ _ | .color _ _ => true
  | _ => false

mutual

/-- The pieces that a statement is printed as, where the nearest definition around it has this form,
if there is one. -/
inductive Node.Prints (policy : Policy) : Option DefinitionForm → Node → List Piece → Prop
  | importRule {within path line} (text : String) :
      Node.Prints policy within (.importRule path line)
        [.other [.statement line, .text ("@import " ++ text ++ ";")]]
  | group {within first more members line body} {head : List Mark}
      (selectors : ∀ mark ∈ head, mark.isHead = true)
      (inside : PrintsAll policy within members body) :
      Node.Prints policy within (.group (first :: more) ⟨members, line⟩)
        (.other (.statement first.line :: head) :: braced body)
  | property {within segments value line} (name text : String) (direct : shorthand? value = none) :
      Node.Prints policy within (.property segments value line)
        [.declaration [.statement line, .text (name ++ ": " ++ text ++ ";")]]
  | shorthand {within segments value inner line variable_} (name text : String)
      (binds : shorthand? value = some (variable_, inner)) :
      Node.Prints policy within (.property segments value line)
        [.declaration [.statement line, .text (reference variable_ ++ ": " ++ text ++ ";"),
          .sameStatement, .text (name ++ ": " ++ reference variable_ ++ ";")]]
  | assignment {within name value interpolated lookup line} (text : String)
      (plain : ∀ other params block start, value ≠ .definition other params block start) :
      Node.Prints policy within (.binding name value interpolated lookup line)
        [.other [.statement line, .text (reference name ++ ": " ++ text ++ ";")]]
  | definition {within name params members blockLine line form body} (text : String)
      (mixin_iff : form = .mixin ↔ holdsProperty body = true)
      (inside : PrintsAll policy (some form) members body) :
      Node.Prints policy within (.definition name params ⟨members, blockLine⟩ line)
        [.definition line form name text body]
  | assigned {within variable_ name params block start interpolated lookup line pieces}
      (printed : Node.Prints policy within (.definition name params block start) pieces) :
      Node.Prints policy within
        (.binding variable_ (.definition name params block start) interpolated lookup line) pieces
  | conditional {within condition members blockLine alternatives line body clauses} (text : String)
      (inside : PrintsAll policy within members body)
      (more : PrintsClauses policy within alternatives clauses) :
      Node.Prints policy within (.conditional condition ⟨members, blockLine⟩ alternatives line)
        (.other [.statement line, .text ("@if " ++ text)] :: (braced body ++ clauses))
  | loop {within item key source members blockLine line body} (head : String)
      (inside : PrintsAll policy within members body) :
      Node.Prints policy within (.loop item key source ⟨members, blockLine⟩ line)
        (.other [.statement line, .text head] :: braced body)
  | unsupported {within kind line} : Node.Prints policy within (.unsupported kind line) []
  | expression {within node word names fragment} (alone : node.isExpression = true)
      (written : node.value ⟨names, within.isSome, policy⟩ = .ok fragment)
      (prefixed : Prefixed within node word) :
      Node.Prints policy within node [.expression node.line word fragment.text]

/-- The pieces that the alternatives of a conditional are printed as. -/
inductive PrintsClauses (policy : Policy) : Option DefinitionForm → List Node → List Piece → Prop
  | nil {within} : PrintsClauses policy within [] []
  | conditional {within condition members blockLine alternatives line rest body nested others}
      (text : String) (inside : PrintsAll policy within members body)
      (inner : PrintsClauses policy within alternatives nested)
      (more : PrintsClauses policy within rest others) :
      PrintsClauses policy within
        (.conditional condition ⟨members, blockLine⟩ alternatives line :: rest)
        (.other [.clause line, .text (" @else if " ++ text)] :: (braced body ++ nested ++ others))
  | block {within members line rest body others} (inside : PrintsAll policy within members body)
      (more : PrintsClauses policy within rest others) :
      PrintsClauses policy within (.block ⟨members, line⟩ :: rest)
        (.other [.clause line, .text " @else"] :: (braced body ++ others))

/-- The pieces that statements are printed as, one after the other. -/
inductive PrintsAll (policy : Policy) : Option DefinitionForm → List Node → List Piece → Prop
  | nil {within} : PrintsAll policy within [] []
  | cons {within node rest first others} (here : Node.Prints policy within node first)
      (more : PrintsAll policy within rest others) :
      PrintsAll policy within (node :: rest) (first ++ others)

end

/-! ## Steps of the walk -/

section
variable {α : Type} {declaring : Bool} {prints : List Piece → Prop} {around : Surrounding}

/-- The walk gives the marks of pieces that are printed so, and knows whether a property is among
them. -/
abbrev Walk.PrintsAs (declaring : Bool) (prints : List Piece → Prop) (walk : Walk (List Mark)) :
    Prop :=
  walk.Keeps (fun _ => True) fun marks =>
    ∃ pieces, allMarks pieces = marks ∧ holdsProperty pieces = declaring ∧ prints pieces

theorem Walk.keeps_any (walk : Walk α) : walk.Keeps (fun _ => True) fun _ => True :=
  fun _ _ => (Yields.any _).mono fun _ _ => ⟨trivial, trivial⟩

theorem Walk.Keeps.mono {inv : Names → Prop} {good better : α → Prop} {walk : Walk α}
    (h : walk.Keeps inv better) (imp : ∀ a, better a → good a) : walk.Keeps inv good :=
  fun progress known => (h progress known).mono fun a ha => ⟨imp a ha.1, ha.2⟩

theorem Walk.printsAs_pure {pieces : List Piece} {marks : List Mark} (printed : prints pieces)
    (declared : holdsProperty pieces = declaring) (same : allMarks pieces = marks) :
    PrintsAs declaring prints (pure marks : Walk (List Mark)) :=
  keeps_pure ⟨pieces, same, declared, printed⟩

/-- The text of an expression is that of its value for some names. -/
theorem Walk.keeps_written (around : Surrounding) (node : Node) :
    Keeps (fun _ => True)
      (fun text => ∃ names fragment,
        node.value ⟨names, around.within.isSome, around.policy⟩ = .ok fragment ∧
          fragment.text = text)
      (Walk.value around fun view => node.value view) := by
  intro progress _
  rw [run_value]
  cases written : node.value ⟨progress.names, around.within.isSome, around.policy⟩ with
  | error e => trivial
  | ok fragment => exact ⟨⟨progress.names, fragment, written, rfl⟩, trivial⟩

end

open Walk

theorem includes_iff (node : Node) : isCall node = true ↔ node.Includes := by
  unfold isCall
  split
  · exact iff_of_true rfl (.inl ⟨_, _, _, rfl⟩)
  · exact iff_of_true rfl (.inr ⟨_, _, _, _, _, rfl⟩)
  · next noCall noExpression =>
    refine iff_of_false Bool.false_ne_true ?_
    rintro (⟨name, arguments, line, rfl⟩ | ⟨name, arguments, callLine, isList, line, rfl⟩)
    · exact noCall _ _ _ rfl
    · exact noExpression _ _ _ _ _ rfl

/-- The word before an expression is the right one. -/
theorem prefixed_expressionWord (around : Surrounding) (node : Node) :
    Prefixed around.within node (expressionWord around node) := by
  unfold expressionWord
  split
  · next within => exact ⟨iff_of_true rfl within, (absurd within ·), (absurd within ·)⟩
  · next outside =>
    split
    · next call =>
      have includes := (includes_iff node).1 call
      exact ⟨iff_of_false (by decide) outside, fun _ => iff_of_true rfl includes,
        fun _ other => absurd includes other⟩
    · next noCall =>
      have other : ¬ node.Includes := mt (includes_iff node).2 noCall
      exact ⟨iff_of_false (by decide) outside, fun _ => iff_of_false (by decide) other,
        fun _ _ => rfl⟩

/-! ## Statements -/

section
variable (around : Surrounding)

theorem prints_importMarks (path : List Literal) (line : Nat) :
    PrintsAs false (Node.Prints around.policy around.within (.importRule path line))
      (importMarks path line) := by
  unfold importMarks
  split
  · exact keeps_malformed _ _
  · exact printsAs_pure (.importRule _) rfl rfl

theorem prints_propertyMarks (segments : List Node) (value : Expression) (line : Nat) :
    PrintsAs true (Node.Prints around.policy around.within (.property segments value line))
      (propertyMarks around segments value line) := by
  unfold propertyMarks
  refine (keeps_any _).bind fun name _ => ?_
  split
  · next variable_ inner binds =>
    refine (keeps_any _).bind fun text _ => (keeps_any _).bind fun _ _ => ?_
    exact (keeps_any _).bind fun _ _ => printsAs_pure (.shorthand name text binds) rfl rfl
  · next direct =>
    refine (keeps_any _).bind fun text _ => ?_
    exact (keeps_any _).bind fun _ _ => printsAs_pure (.property name text direct) rfl rfl

theorem prints_assignmentMarks {name : String} {value : Node} {interpolated lookup : Bool}
    (line : Nat)
    (plain : ∀ other params block start, value ≠ .definition other params block start) :
    PrintsAs false
      (Node.Prints around.policy around.within (.binding name value interpolated lookup line))
      (assignmentMarks around name value line) := by
  unfold assignmentMarks
  refine (keeps_any _).bind fun text _ => (keeps_any _).bind fun _ _ => ?_
  exact printsAs_pure (.assignment text plain) rfl rfl

theorem prints_expressionMarks {node : Node} (alone : node.isExpression = true) :
    PrintsAs false (Node.Prints around.policy around.within node)
      (expressionMarks around node) := by
  unfold expressionMarks
  refine (keeps_written around node).bind ?_
  rintro text ⟨names, fragment, written, rfl⟩
  exact printsAs_pure (.expression alone written (prefixed_expressionWord around node)) rfl rfl

theorem heads_selectorMarks (selectors : List Selector) :
    Keeps (fun _ => True) (fun marks => ∀ mark ∈ marks, mark.isHead = true)
      (selectorMarks around selectors) := by
  induction selectors with
  | nil => exact keeps_pure (List.forall_mem_nil _)
  | cons selector rest ih =>
    obtain ⟨segments, line⟩ := selector
    refine (keeps_any _).bind fun text _ => ih.bind fun more heads => keeps_pure ?_
    exact List.forall_mem_cons.2 ⟨rfl, List.forall_mem_cons.2 ⟨rfl, heads⟩⟩

end

/-- The walk gives the marks of the block that these statements make up. -/
abbrev Walk.PrintsBlock (around : Surrounding) (members : List Node) (walk : Walk (List Mark)) :
    Prop :=
  walk.Keeps (fun _ => True) fun marks =>
    ∃ pieces, enclosed (allMarks pieces) = marks ∧ holdsProperty pieces = setsProperty members ∧
      PrintsAll around.policy around.within members pieces

/-- A definition is printed as a mixin where its body declares a property. -/
theorem prints_definitionMarks {around : Surrounding} {name : String} {params : Arguments}
    {block : Block} (line : Nat) {body : Walk (List Mark)}
    (h : PrintsBlock (around.inside (formOf block)) block.nodes body) :
    PrintsAs false (Node.Prints around.policy around.within (.definition name params block line))
      (definitionMarks around name params line (formOf block) body) := by
  obtain ⟨members, blockLine⟩ := block
  unfold definitionMarks
  refine (keeps_any _).bind fun texts _ => ?_
  refine h.bind fun marks ⟨pieces, same, declared, printed⟩ => ?_
  have mixin_iff : formOf ⟨members, blockLine⟩ = .mixin ↔ holdsProperty pieces = true := by
    rw [declared]
    unfold formOf
    split
    · next sets => exact iff_of_true rfl sets
    · next none => exact iff_of_false nofun none
  subst same
  exact printsAs_pure (.definition _ mixin_iff printed) rfl (List.append_nil _)

mutual

theorem Node.prints_statement (around : Surrounding) : ∀ node : Node,
    PrintsAs node.setsProperty (node.Prints around.policy around.within) (node.statement around)
  | .importRule path line => prints_importMarks around path line
  | .group [] _ => keeps_malformed _ _
  | .group (⟨segments, line⟩ :: rest) ⟨members, _⟩ => by
    refine (keeps_any _).bind fun first _ => ?_
    refine (heads_selectorMarks around rest).bind fun more heads => ?_
    refine (prints_block around members).bind fun marks ⟨pieces, same, declared, printed⟩ => ?_
    have head : ∀ mark ∈ .text first :: more, mark.isHead = true :=
      List.forall_mem_cons.2 ⟨rfl, heads⟩
    refine printsAs_pure (.group head printed) ?_ ?_
    · exact (holdsProperty_cons _ _).trans ((holdsProperty_braced pieces).trans declared)
    · rw [allMarks, allMarks_braced, same]
      rfl
  | .property segments value line => prints_propertyMarks around segments value line
  | .binding _ (.definition name params ⟨members, _⟩ line) _ _ _ => by
    refine (prints_definitionMarks line (prints_block _ members)).mono ?_
    rintro marks ⟨pieces, same, declared, printed⟩
    exact ⟨pieces, same, declared, .assigned printed⟩
  | .definition name params ⟨members, _⟩ line =>
    prints_definitionMarks line (prints_block _ members)
  | .conditional condition ⟨members, _⟩ alternatives line => by
    refine (keeps_any _).bind fun text _ => ?_
    refine (prints_block around members).bind fun marks ⟨pieces, same, declared, printed⟩ => ?_
    refine (prints_alternativeMarks around alternatives).bind ?_
    rintro others ⟨clauses, same', declared', printed'⟩
    refine printsAs_pure (.conditional text printed printed') ?_ ?_
    · rw [holdsProperty_cons, holdsProperty_append, holdsProperty_braced, declared, declared']
      rfl
    · rw [allMarks, allMarks_append, allMarks_braced, same, same']
      rfl
  | .loop item key source ⟨members, _⟩ line => by
    refine (keeps_any _).bind fun head _ => ?_
    refine (prints_block around members).bind fun marks ⟨pieces, same, declared, printed⟩ => ?_
    refine printsAs_pure (.loop head printed) ?_ ?_
    · exact (holdsProperty_cons _ _).trans ((holdsProperty_braced pieces).trans declared)
    · rw [allMarks, allMarks_braced, same]
      rfl
  | .unsupported kind line =>
    (keeps_any _).bind fun _ _ => printsAs_pure .unsupported rfl rfl
  | .binding name (.importRule _ _) _ _ line | .binding name (.group _ _) _ _ line
  | .binding name (.selector _) _ _ line | .binding name (.block _) _ _ line
  | .binding name (.property _ _ _) _ _ line | .binding name (.ident _ _ _ _) _ _ line
  | .binding name (.binding _ _ _ _ _) _ _ line | .binding name (.expression _) _ _ line
  | .binding name (.call _ _ _) _ _ line | .binding name (.arguments _) _ _ line
  | .binding name (.params _) _ _ line | .binding name (.binary _ _ _ _) _ _ line
  | .binding name (.unary _ _ _) _ _ line | .binding name (.conditional _ _ _ _) _ _ line
  | .binding name (.loop _ _ _ _ _) _ _ line | .binding name (.literal _) _ _ line
  | .binding name (.measure _ _ _) _ _ line | .binding name (.boolean _ _) _ _ line
  | .binding name (.color _ _) _ _ line | .binding name (.unsupported _ _) _ _ line =>
    prints_assignmentMarks around line nofun
  | .ident _ _ _ _ | .expression _ | .call _ _ _ | .binary _ _ _ _ | .unary _ _ _ | .literal _
  | .measure _ _ _ | .boolean _ _ | .color _ _ => prints_expressionMarks around rfl
  | .selector _ | .block _ | .arguments _ | .params _ => keeps_malformed _ _

theorem prints_alternativeMarks (around : Surrounding) : ∀ nodes : List Node,
    PrintsAs (setsProperty nodes) (PrintsClauses around.policy around.within nodes)
      (alternativeMarks around nodes)
  | [] => printsAs_pure .nil rfl rfl
  | .conditional condition ⟨members, _⟩ alternatives line :: rest => by
    refine (keeps_any _).bind fun text _ => ?_
    refine (prints_block around members).bind fun marks ⟨pieces, same, declared, printed⟩ => ?_
    refine (prints_alternativeMarks around alternatives).bind ?_
    rintro inner ⟨nested, same', declared', printed'⟩
    refine (prints_alternativeMarks around rest).bind ?_
    rintro more ⟨others, same'', declared'', printed''⟩
    refine printsAs_pure (.conditional text printed printed' printed'') ?_ ?_
    · rw [holdsProperty_cons, holdsProperty_append, holdsProperty_append, holdsProperty_braced,
        declared, declared', declared'']
      rfl
    · rw [allMarks, allMarks_append, allMarks_append, allMarks_braced, same, same', same'']
      rfl
  | .block ⟨members, line⟩ :: rest => by
    refine (prints_block around members).bind fun marks ⟨pieces, same, declared, printed⟩ => ?_
    refine (prints_alternativeMarks around rest).bind ?_
    rintro more ⟨others, same', declared', printed'⟩
    refine printsAs_pure (.block printed printed') ?_ ?_
    · rw [holdsProperty_cons, holdsProperty_append, holdsProperty_braced, declared, declared']
      rfl
    · rw [allMarks, allMarks_append, allMarks_braced, same, same']
      rfl
  | .importRule _ _ :: _ | .group _ _ :: _ | .selector _ :: _ | .property _ _ _ :: _
  | .ident _ _ _ _ :: _ | .binding _ _ _ _ _ :: _ | .expression _ :: _ | .call _ _ _ :: _
  | .arguments _ :: _ | .params _ :: _ | .binary _ _ _ _ :: _ | .unary _ _ _ :: _
  | .loop _ _ _ _ _ :: _ | .literal _ :: _ | .measure _ _ _ :: _ | .boolean _ _ :: _
  | .color _ _ :: _ | .definition _ _ _ _ :: _ | .unsupported _ _ :: _ => keeps_malformed _ _

theorem prints_block (around : Surrounding) (members : List Node) {line : Nat} :
    PrintsBlock around members (Block.marks around ⟨members, line⟩) :=
  (prints_statements around members).bind fun marks ⟨pieces, same, declared, printed⟩ =>
    keeps_pure ⟨pieces, congrArg enclosed same, declared, printed⟩

theorem prints_statements (around : Surrounding) : ∀ nodes : List Node,
    PrintsAs (setsProperty nodes) (PrintsAll around.policy around.within nodes)
      (statements around nodes)
  | [] => printsAs_pure .nil rfl rfl
  | node :: rest => by
    refine (node.prints_statement around).bind fun marks ⟨first, same, declared, printed⟩ => ?_
    refine (prints_statements around rest).bind fun more ⟨others, same', declared', printed'⟩ => ?_
    refine printsAs_pure (.cons printed printed') ?_ ?_
    · rw [holdsProperty_append, declared, declared']
      rfl
    · rw [allMarks_append, same, same']

end

/-- Every tree that is converted is printed piece by piece: each definition as a mixin if and only
if a property is printed among the pieces of its body, each expression that is a statement with the
word that the nearest definition around it and its own form call for. -/
theorem Stylesheet.convert_forms {options : Options} {sheet : Stylesheet} {converted : Converted}
    (ok : sheet.convert options = .ok converted) :
    ∃ pieces, PrintsAll options.policy none sheet.nodes pieces ∧
      converted.text = layOut (allMarks pieces) ∧
      sheet.emit options.policy = .ok (layOut (allMarks pieces)) := by
  have emitted : sheet.emit options.policy = .ok converted.text := by
    rw [emit_eq_convert, ok]
    rfl
  have printed := prints_statements ⟨options.policy, none⟩ sheet.nodes .start trivial
  unfold convert at ok
  generalize (statements ⟨options.policy, none⟩ sheet.nodes).run .start = outcome at printed ok
  obtain ⟨e | marks, progress⟩ := outcome
  · cases ok
  · obtain ⟨⟨pieces, rfl, -, printed⟩, -⟩ := printed
    cases ok
    exact ⟨pieces, printed, rfl, emitted⟩

/-- A mixin that holds a function, and behind it an inclusion and a name that is a statement; its
only property stands in an alternative. -/
theorem forms_nested : ∃ sheet pieces,
    Stylesheet.convert ⟨.scss, .strict⟩ sheet =
      .ok ⟨"@mixin m($a) \x7b\n  @function f() \x7b\n    @return g();\n  \x7d\n" ++
        "  @include n();\n  @if $a \x7b\n    b;\n  \x7d @else \x7b\n    color: red;\n  \x7d\n" ++
        "\x7d\n@include m(c);", []⟩ ∧
    PrintsAll .strict none sheet.nodes pieces ∧
    sheet.emit .strict = .ok (layOut (allMarks pieces)) := by
  have ok : Stylesheet.convert ⟨.scss, .strict⟩ ⟨[
      .definition "m" ⟨[.name "a" 1], 1⟩ ⟨[
        .definition "f" ⟨[], 2⟩ ⟨[.call "g" ⟨[], 3⟩ 3], 2⟩ 2,
        .call "n" ⟨[], 4⟩ 4,
        .conditional (.name "a" 5) ⟨[.name "b" 6], 5⟩
          [.block ⟨[.property [.plain "color" 8] (.sequence [.plain "red" 8] 8) 8], 7⟩] 5], 1⟩ 1,
      .expression (.sequence [.call "m" ⟨[.name "c" 9], 9⟩ 9] 9)]⟩ =
      .ok ⟨"@mixin m($a) \x7b\n  @function f() \x7b\n    @return g();\n  \x7d\n" ++
        "  @include n();\n  @if $a \x7b\n    b;\n  \x7d @else \x7b\n    color: red;\n  \x7d\n" ++
        "\x7d\n@include m(c);", []⟩ := by
    decide +kernel
  obtain ⟨pieces, printed, -, emitted⟩ := Stylesheet.convert_forms ok
  exact ⟨_, pieces, ok, printed, emitted⟩

end StylusToScss
