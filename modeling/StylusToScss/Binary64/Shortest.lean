import StylusToScss.Binary64.Decimal

/-!
# The shortest decimal of a number

Of all decimals that read back as a number, `shortest` takes one with the fewest digits, and of
those the nearest one; of two that are equally near, the upper one. For each count of digits it
looks at the two decimals around the value on the grid of that count.

* `ofDecimal_shortest`: the decimal reads back as the number it was chosen for.
-/

namespace StylusToScss.Binary64

/-- The decimal `digits · 10 ^ exponent`. -/
structure Decimal where
  digits : Nat
  exponent : Int
  deriving DecidableEq, Repr

/-- The positive number that a decimal reads as. -/
def Decimal.number (d : Decimal) : Binary64 := ofDecimal false d.digits d.exponent

/-- The value of the number of this rank in units of `10 ^ exponent`, as a quotient. -/
def quotientAt (rank : Nat) : Int → Nat × Nat
  | .ofNat e => (magnitude rank, one * Nat.pow 10 e)
  | .negSucc e => (magnitude rank * Nat.pow 10 (e + 1), one)

/-- The power of ten at the leading digit of the number of this rank, which is not zero. -/
def leadingExponent (rank : Nat) : Int :=
  if one ≤ magnitude rank then
    ((Nat.toDigits 10 (magnitude rank / one)).length : Int) - 1
  else -((Nat.toDigits 10 ((one - 1) / magnitude rank)).length : Int)

/-- The decimal on the grid of `10 ^ exponent` that reads back as the number of this rank: the
nearer one if both neighbours of the value do, the upper one if they are equally near. -/
def onGrid? (rank : Fin rankLimit) (exponent : Int) : Option Decimal :=
  let (num, den) := quotientAt rank.val exponent
  let lower : Decimal := ⟨num / den, exponent⟩
  let upper : Decimal := ⟨num / den + 1, exponent⟩
  let candidates := if 2 * (num % den) < den then [lower, upper] else [upper, lower]
  candidates.find? fun d => d.number = .finite false rank

/-- The shortest decimal of the number of this rank, which is not zero. Seventeen digits are enough
for every number; the value written out in full closes the search. -/
def shortest (rank : Fin rankLimit) : Decimal :=
  let first := leadingExponent rank.val
  ((List.range 17).findSome? fun i : Nat => onGrid? rank (first - i)).getD
    ⟨fullDigits rank.val, -places⟩

theorem number_of_onGrid? {rank : Fin rankLimit} {exponent : Int} {d : Decimal}
    (h : onGrid? rank exponent = some d) : d.number = .finite false rank := by
  have := List.find?_some h
  simpa using this

theorem ofDecimal_shortest (rank : Fin rankLimit) (h : rank.val ≠ 0) :
    (shortest rank).number = .finite false rank := by
  unfold shortest
  simp only
  generalize hd : (List.range 17).findSome? (fun i : Nat => onGrid? rank _) = found
  cases found with
  | none => exact ofDecimal_exact false rank h
  | some d =>
    obtain ⟨i, _, hi⟩ := List.exists_of_findSome?_eq_some hd
    exact number_of_onGrid? hi

end StylusToScss.Binary64
