import StylusToScss.Tree.Basic

/-!
# The strings of a tree

`Stylesheet.strings` lists all strings that a tree holds; the quote character of a literal counts as
a string of its own. What can be in the text of a stylesheet depends on the characters of its
strings (`SpelledIn`).
-/

namespace StylusToScss

/-- The value of a literal and its quote. -/
def Literal.strings (literal : Literal) : List String :=
  literal.value :: literal.quote.toList.map String.singleton

mutual

/-- The strings of a node. -/
def Node.strings : Node → List String
  | .importRule path _ => path.flatMap Literal.strings
  | .group selectors ⟨members, _⟩ => selectorStrings selectors ++ nodeStrings members
  | .selector ⟨segments, _⟩ => nodeStrings segments
  | .block ⟨members, _⟩ => nodeStrings members
  | .property segments ⟨nodes, _, _, _⟩ _ => nodeStrings segments ++ nodeStrings nodes
  | .ident name _ _ _ => [name]
  | .binding name value _ _ _ => name :: value.strings
  | .expression ⟨nodes, _, _, _⟩ => nodeStrings nodes
  | .call name ⟨nodes, _⟩ _ => name :: nodeStrings nodes
  | .arguments ⟨nodes, _⟩ => nodeStrings nodes
  | .params ⟨nodes, _⟩ => nodeStrings nodes
  | .binary op left right _ => op :: (left.strings ++ right.strings)
  | .unary op operand _ => op :: operand.strings
  | .conditional condition ⟨members, _⟩ alternatives _ =>
    condition.strings ++ (nodeStrings members ++ nodeStrings alternatives)
  | .loop item key ⟨nodes, _, _, _⟩ ⟨members, _⟩ _ =>
    item :: (key.toList ++ (nodeStrings nodes ++ nodeStrings members))
  | .literal l => l.strings
  | .measure _ unit _ => unit.toList
  | .boolean _ _ => []
  | .color raw _ => [raw]
  | .definition name ⟨nodes, _⟩ ⟨members, _⟩ _ =>
    name :: (nodeStrings nodes ++ nodeStrings members)
  | .unsupported kind _ => [kind]

/-- The strings of nodes. -/
def nodeStrings : List Node → List String
  | [] => []
  | node :: rest => node.strings ++ nodeStrings rest

/-- The strings of selectors. -/
def selectorStrings : List Selector → List String
  | [] => []
  | ⟨segments, _⟩ :: rest => nodeStrings segments ++ selectorStrings rest

end

/-- The strings of a stylesheet. -/
def Stylesheet.strings (sheet : Stylesheet) : List String := nodeStrings sheet.nodes

/-! ## Their characters -/

/-- All characters of the strings are allowed. -/
def SpelledIn (allowed : Char → Prop) (strings : List String) : Prop :=
  ∀ s ∈ strings, ∀ c ∈ s.toList, allowed c

section
variable {allowed : Char → Prop} {s : String} {a b : List String}

theorem spelledIn_cons :
    SpelledIn allowed (s :: a) ↔ (∀ c ∈ s.toList, allowed c) ∧ SpelledIn allowed a :=
  List.forall_mem_cons

theorem spelledIn_append :
    SpelledIn allowed (a ++ b) ↔ SpelledIn allowed a ∧ SpelledIn allowed b :=
  List.forall_mem_append

/-- Which characters strings hold can be checked. -/
theorem spelledIn_of_all {strings : List String} (p : Char → Bool) (h : ∀ c, p c = true → allowed c)
    (checked : strings.all (·.toList.all p) = true) : SpelledIn allowed strings := by
  intro s hs c hc
  exact h c (List.all_eq_true.1 (List.all_eq_true.1 checked s hs) c hc)

theorem spelledIn_all (strings : List String) : SpelledIn (fun _ => True) strings :=
  fun _ _ _ _ => trivial

end

end StylusToScss
