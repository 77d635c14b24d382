import StylusToScss.Binary64.Basic

/-!
# Reading a decimal

`ofDecimal` gives the number nearest to a decimal, and `read?` the number that a text denotes: an
optional sign, then either the name of infinity or of what is not a number in any letter case, or
digits with an optional point among them and an optional exponent.

* `ofDecimal_exact`: a decimal that writes out a number's value in full reads as that number.
-/

namespace StylusToScss.Binary64

/-- One, in units of 2^-1074. -/
def one : Nat := 1 <<< places

/-- The number nearest to `digits · 10 ^ exponent`. Exponents far outside the range of the format
are settled without computing the power. -/
def ofDecimal (negative : Bool) (digits : Nat) (exponent : Int) : Binary64 :=
  if digits = 0 then zero negative
  else match exponent with
    | .ofNat e =>
      if 310 ≤ e then .infinite negative else ofRatio negative (digits * Nat.pow 10 e * one) 1
    | .negSucc e =>
      if digits.log2 + 2000 ≤ e then zero negative
      else ofRatio negative (digits * one) (Nat.pow 10 (e + 1))

/-- The number nearest to an integer. -/
def ofInt (n : Int) : Binary64 := ofDecimal (n < 0) n.natAbs 0

/-! ## The text of a decimal -/

/-- The digits at the front of the text. -/
def leadingDigits (text : List Char) : List Char := text.takeWhile Char.isDigit

/-- What follows the digits at the front of the text. -/
def afterDigits (text : List Char) : List Char := text.dropWhile Char.isDigit

/-- The number that decimal digits write. -/
def digitsValue (digits : List Char) : Nat :=
  digits.foldl (fun n c => 10 * n + (c.toNat - '0'.toNat)) 0

/-- The exponent at the end of a decimal: nothing, or the letter with a sign and digits. -/
def exponent? : List Char → Option Int
  | [] => some 0
  | c :: rest =>
    if c = 'e' ∨ c = 'E' then
      let (negative, digits) := match rest with
        | '-' :: digits => (true, digits)
        | '+' :: digits => (false, digits)
        | digits => (false, digits)
      if digits ≠ [] ∧ digits.all Char.isDigit then
        some (if negative then -(digitsValue digits : Int) else digitsValue digits)
      else none
    else none

/-- An unsigned decimal: digits, a point with digits on one side of it at least, an exponent. -/
def unsigned? (negative : Bool) (text : List Char) : Option Binary64 :=
  let whole := leadingDigits text
  let (fraction, rest) := match afterDigits text with
    | '.' :: rest => (leadingDigits rest, afterDigits rest)
    | rest => ([], rest)
  if whole = [] ∧ fraction = [] then none
  else (exponent? rest).map fun e =>
    ofDecimal negative (digitsValue (whole ++ fraction)) (e - fraction.length)

/-- A name of infinity or of what is not a number, in any letter case. -/
def named? (negative : Bool) (text : List Char) : Option Binary64 :=
  let name := String.ofList (text.map Char.toLower)
  if name = "inf" ∨ name = "infinity" then some (.infinite negative)
  else if name = "nan" then some .nan
  else none

/-- The number that a text denotes. -/
def read? (text : List Char) : Option Binary64 :=
  let (negative, rest) := match text with
    | '-' :: rest => (true, rest)
    | '+' :: rest => (false, rest)
    | rest => (false, rest)
  (named? negative rest).or (unsigned? negative rest)

theorem read?_nil : read? [] = none := by decide

/-! ## A value written out in full -/

/-- The digits that write out the value of the number of this rank in full. There are as many
decimal places as binary ones. -/
def fullDigits (rank : Nat) : Nat := magnitude rank * Nat.pow 5 places

theorem fullDigits_mul_one (rank : Nat) :
    fullDigits rank * one = magnitude rank * Nat.pow 10 places := by
  have one_eq : one = Nat.pow 2 places := Nat.one_shiftLeft places
  rw [fullDigits, one_eq, Nat.mul_assoc]
  exact congrArg (magnitude rank * ·) (Nat.mul_pow 5 2 places).symm

theorem ofDecimal_exact (negative : Bool) (rank : Fin rankLimit) (h : rank.val ≠ 0) :
    ofDecimal negative (fullDigits rank.val) (-places) = .finite negative rank := by
  have digits_pos : 0 < fullDigits rank.val :=
    Nat.mul_pos (magnitude_pos h) (Nat.pow_pos (by decide))
  have e : -(places : Int) = Int.negSucc 1073 := by rw [places_eq]; rfl
  unfold ofDecimal
  rw [if_neg (Nat.ne_of_gt digits_pos), e]
  refine (if_neg (by omega)).trans ?_
  rw [fullDigits_mul_one, ← places_eq]
  exact ofRatio_value negative rank _ (Nat.pow_pos (by decide))

end StylusToScss.Binary64
