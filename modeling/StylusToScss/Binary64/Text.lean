import StylusToScss.Binary64.Shortest

/-!
# The text of a number

Numbers are written by position, never with an exponent: the shortest digits that read back, zeros
up to the point, no point after a whole number. `formatNumber` is the form inside a stylesheet,
where negative zero loses its sign.
-/

namespace StylusToScss.Binary64

/-- The digits of `n`, with zeros in front up to the given width. -/
def paddedDigits (n width : Nat) : List Char :=
  let digits := Nat.toDigits 10 n
  List.replicate (width - digits.length) '0' ++ digits

/-- The digits without the zeros at their end. -/
def withoutTrailingZeros (digits : List Char) : List Char :=
  (digits.reverse.dropWhile (· = '0')).reverse

/-- The decimal by position: the whole part, then a point and the fraction if there is one. -/
def Decimal.text (d : Decimal) : List Char :=
  match d.exponent with
  | .ofNat e => Nat.toDigits 10 d.digits ++ List.replicate e '0'
  | .negSucc e =>
    let digits := paddedDigits d.digits (e + 2)
    let whole := digits.take (digits.length - (e + 1))
    let fraction := withoutTrailingZeros (digits.drop (digits.length - (e + 1)))
    if fraction = [] then whole else whole ++ '.' :: fraction

/-- The characters of a number. -/
def chars : Binary64 → List Char
  | .finite negative rank =>
    let digits := if rank.val = 0 then ['0'] else (shortest rank).text
    if negative then '-' :: digits else digits
  | .infinite negative => if negative then "-inf".toList else "inf".toList
  | .nan => "NaN".toList

/-- The text of a number. -/
def text (x : Binary64) : String := String.ofList x.chars

/-- A number as a stylesheet shows it: both zeros are `0`. -/
def formatNumber (x : Binary64) : String := if x.isZero then "0" else x.text

end StylusToScss.Binary64
