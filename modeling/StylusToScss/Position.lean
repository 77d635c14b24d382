/-!
# Places in a source text

A `Span` is the stretch of the source that a token covers, in bytes, with the line and column where
it starts. A `Located` fault is a cause of failure with the line and column it is reported at.
-/

namespace StylusToScss

/-- A stretch of the source: byte offsets of its ends, and the line and column of its start. -/
structure Span where
  start : Nat
  stop : Nat
  line : Nat
  column : Nat
  deriving DecidableEq, Repr

/-- A cause with the place it is reported at. -/
structure Located (ε : Type) where
  cause : ε
  line : Nat
  column : Nat
  deriving DecidableEq, Repr

/-- The same place with another cause. -/
def Located.map {ε δ : Type} (f : ε → δ) (fault : Located ε) : Located δ :=
  ⟨f fault.cause, fault.line, fault.column⟩

/-- The bytes that the characters take. -/
def byteLength : List Char → Nat
  | [] => 0
  | c :: text => c.utf8Size + byteLength text

theorem byteLength_append (a b : List Char) :
    byteLength (a ++ b) = byteLength a + byteLength b := by
  induction a with
  | nil => simp [byteLength]
  | cons c rest ih => simp [byteLength, ih, Nat.add_assoc]

/-- The part of the source between two byte offsets, if they are in order and no character lies
across one of them. -/
def slice? (source : String) (start stop : Nat) : Option String :=
  if start ≤ stop ∧ String.Pos.Raw.IsValid source ⟨start⟩ ∧
      String.Pos.Raw.IsValid source ⟨stop⟩ then
    some (String.Pos.Raw.extract source ⟨start⟩ ⟨stop⟩)
  else none

end StylusToScss
