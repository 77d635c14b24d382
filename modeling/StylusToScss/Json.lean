import StylusToScss.Binary64.Decimal

/-!
# JSON values

The values that trees are exchanged as. A number is an integer or a real number; the fields of an
object keep their order. The readers of single fields state what each type of field accepts.

* `sizeOf_lookup`: the value of a field is smaller than the fields, so reading a tree ends.
-/

namespace StylusToScss

/-- A JSON value. -/
inductive Json where
  | null
  | bool (b : Bool)
  | integer (n : Int)
  | real (x : Binary64)
  | text (s : String)
  | array (items : List Json)
  | object (fields : List (String × Json))

namespace Json

/-- The fields of an object. -/
abbrev Fields := List (String × Json)

theorem sizeOf_lookup {key : String} {value : Json} :
    ∀ {fields : Fields}, fields.lookup key = some value → sizeOf value < sizeOf fields
  | [], h => by cases h
  | (k, v) :: rest, h => by
    rw [List.lookup_cons] at h
    split at h
    · cases h
      simp only [List.cons.sizeOf_spec, Prod.mk.sizeOf_spec]
      omega
    · have := sizeOf_lookup h
      simp only [List.cons.sizeOf_spec]
      omega

/-- The value of a field. -/
def find? (fields : Fields) (key : String) : Option { v : Json // sizeOf v < sizeOf fields } :=
  match h : fields.lookup key with
  | some v => some ⟨v, sizeOf_lookup h⟩
  | none => none

theorem find?_eq_some {fields : Fields} {key : String} {value : Json}
    (h : fields.lookup key = some value) : find? fields key = some ⟨value, sizeOf_lookup h⟩ := by
  unfold find?
  split
  · next v hv =>
    cases Option.some.inj (h.symm.trans hv)
    rfl
  · next hn => rw [h] at hn; cases hn

/-- A field that holds a text. -/
def text? (fields : Fields) (key : String) : Option String :=
  match fields.lookup key with
  | some (.text s) => some s
  | _ => none

/-- A field that holds a text, holds `null` or is missing. -/
def optionalText? (fields : Fields) (key : String) : Option (Option String) :=
  match fields.lookup key with
  | some (.text s) => some (some s)
  | some .null => some none
  | some _ => none
  | none => some none

/-- A field that holds a text of one character, holds `null` or is missing. -/
def optionalChar? (fields : Fields) (key : String) : Option (Option Char) := do
  match ← optionalText? fields key with
  | none => some none
  | some s =>
    match s.toList with
    | [c] => some (some c)
    | _ => none

/-- A field that holds a truth value. -/
def bool? (fields : Fields) (key : String) : Option Bool :=
  match fields.lookup key with
  | some (.bool b) => some b
  | _ => none

/-- A field that holds a truth value, or is missing and then false. -/
def flag? (fields : Fields) (key : String) : Option Bool :=
  match fields.lookup key with
  | some (.bool b) => some b
  | some _ => none
  | none => some false

/-- A field that holds a number: a real one, or the number nearest to an integer. Numbers beyond the
largest finite one are refused. -/
def number? (fields : Fields) (key : String) : Option Binary64 :=
  match fields.lookup key with
  | some (.real x) => if x.isFinite then some x else none
  | some (.integer n) => if (Binary64.ofInt n).isFinite then some (.ofInt n) else none
  | _ => none

/-- The field `lineno`: an integer of 64 binary digits, or missing and then zero. -/
def line? (fields : Fields) : Option Nat :=
  match fields.lookup "lineno" with
  | some (.integer n) => if 0 ≤ n ∧ n < 18446744073709551616 then some n.toNat else none
  | some _ => none
  | none => some 0

/-- A real number, or `null` for a value that is not finite. -/
def ofNumber (x : Binary64) : Json := if x.isFinite then .real x else .null

/-- A text, or `null` where there is none. -/
def ofOptionalText : Option String → Json
  | some s => .text s
  | none => .null

end Json
end StylusToScss
