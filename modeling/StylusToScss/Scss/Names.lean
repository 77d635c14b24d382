/-!
# The names known to a conversion

Writing a stylesheet remembers which names have been bound and what the properties so far were
worth. Both only grow: a name bound anywhere is a variable from there to the end, and a property
stays known after its block has ended.

* `reference` writes a name as a variable, whether or not it already has the dollar sign.
* `Names.property?` is the value of the latest property of a name.
-/

namespace StylusToScss

/-- A name without the dollar signs in front. -/
def bareName (name : String) : String := String.ofList (name.toList.dropWhile (· == '$'))

/-- A name as a variable. -/
def reference (name : String) : String := "$" ++ bareName name

/-- A name without the dots behind it that mark a parameter for all arguments that are left. -/
def withoutDots (name : String) : String :=
  String.ofList (go name.toList.reverse).reverse
where
  /-- Drop runs of three dots from the front. -/
  go : List Char → List Char
    | '.' :: '.' :: '.' :: rest => go rest
    | text => text

/-- The variables bound so far, without dollar signs, and the properties written so far: their
names, and at the same indices their values. The latest come first. -/
structure Names where
  bound : List String
  properties : List String
  values : List String
  length_properties : properties.length = values.length
  deriving DecidableEq, Repr

namespace Names

/-- Nothing is known. -/
def none : Names := ⟨[], [], [], rfl⟩

/-- Bind a variable. -/
def bind (names : Names) (name : String) : Names :=
  { names with bound := bareName name :: names.bound }

/-- Remember the value of a property. -/
def record (names : Names) (property value : String) : Names where
  bound := names.bound
  properties := property :: names.properties
  values := value :: names.values
  length_properties := congrArg Nat.succ names.length_properties

/-- Whether a name has been bound. -/
def isVariable (names : Names) (name : String) : Bool := names.bound.contains (bareName name)

/-- The value of the latest property of this name. -/
def property? (names : Names) (property : String) : Option String :=
  (names.properties.finIdxOf? property).map fun i =>
    names.values.get (i.cast names.length_properties)

theorem isVariable_bind (names : Names) (name other : String) :
    (names.bind name).isVariable other =
      (bareName other == bareName name || names.isVariable other) := by
  simp only [bind, isVariable, List.contains_cons]

theorem property?_record (names : Names) (property value other : String) :
    (names.record property value).property? other =
      if other = property then some value else names.property? other := by
  by_cases h : other = property
  · simp only [record, property?, List.finIdxOf?_cons, h, BEq.rfl, if_true, Option.map_some]
    rfl
  · have : (property == other) = false := by simp [Ne.symm h]
    simp only [record, property?, List.finIdxOf?_cons, this, h, if_false, Bool.false_eq_true,
      Option.map_map]
    rfl

end Names
end StylusToScss
