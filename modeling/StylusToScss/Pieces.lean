/-!
# The pieces of a list

A list is cut into pieces at its separators by recursion from the front: a separator starts a new
piece, and any other item goes in front of the first piece of what follows (`consPiece`).

* `cutAt` cuts at the items with a property; `flatten_cutAt`: nothing but those items is lost.
-/

namespace StylusToScss

/-- Put an item in front of the first piece. -/
def consPiece {α : Type} (item : α) : List (List α) → List (List α)
  | [] => [[item]]
  | piece :: rest => (item :: piece) :: rest

/-- The pieces between the items with a property. -/
def cutAt {α : Type} (p : α → Bool) : List α → List (List α)
  | [] => [[]]
  | item :: rest => if p item then [] :: cutAt p rest else consPiece item (cutAt p rest)

theorem consPiece_ne_nil {α : Type} (item : α) (pieces : List (List α)) :
    consPiece item pieces ≠ [] := by
  cases pieces <;> simp [consPiece]

theorem flatten_consPiece {α : Type} (item : α) (pieces : List (List α)) :
    (consPiece item pieces).flatten = item :: pieces.flatten := by
  cases pieces <;> simp [consPiece]

theorem flatten_cutAt {α : Type} (p : α → Bool) (l : List α) :
    (cutAt p l).flatten = l.filter fun item => !p item := by
  induction l with
  | nil => rfl
  | cons item rest ih =>
    by_cases h : p item = true
    · simp [cutAt, h, ih]
    · simp [cutAt, h, ih, flatten_consPiece]

end StylusToScss
