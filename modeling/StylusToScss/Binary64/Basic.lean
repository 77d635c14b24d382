/-!
# Double-precision numbers

A `Binary64` is a number of the IEEE format of that name. The non-negative finite ones, in ascending
order, are 0, 2^-1074, 2 · 2^-1074, …: the `rank` of a number is its place in that order, and
`significand` and `shift` read its value off the rank, in units of 2^-1074.

* `ofRatio_value`: a number is the one nearest to its own value.
-/

namespace StylusToScss

/-- How many non-negative finite numbers there are. -/
abbrev Binary64.rankLimit : Nat := 9218868437227405312

/-- A double-precision number. The rank of a finite one is its place among the non-negative finite
ones. -/
inductive Binary64 where
  | finite (negative : Bool) (rank : Fin Binary64.rankLimit)
  | infinite (negative : Bool)
  | nan
  deriving DecidableEq, Repr

namespace Binary64

/-- The binary places of the smallest positive number, 2^-1074. It is not unfolded on its own, so
that no proof computes its powers. -/
@[irreducible] def places : Nat := 1074

theorem places_eq : places = 1073 + 1 := by unfold places; rfl

/-- The least integer of 53 binary digits, 2^52. -/
abbrev leading : Nat := 4503599627370496

/-- Zero, with a sign. -/
def zero (negative : Bool) : Binary64 := .finite negative ⟨0, by decide⟩

/-- Whether the number is positive or negative zero. -/
def isZero : Binary64 → Bool
  | .finite _ rank => rank.val == 0
  | .infinite _ => false
  | .nan => false

/-- Whether the number is neither infinite nor not a number. -/
def isFinite : Binary64 → Bool
  | .finite _ _ => true
  | .infinite _ => false
  | .nan => false

/-- The integer of at most 53 binary digits in the value of the number of this rank. -/
def significand (rank : Nat) : Nat :=
  if rank < leading then rank else leading + rank % leading

/-- How many binary digits the significand is shifted by. -/
def shift (rank : Nat) : Nat := rank / leading - 1

/-- The value of the number of this rank, in units of 2^-1074. -/
def magnitude (rank : Nat) : Nat := significand rank <<< shift rank

/-- The quotient rounded to the nearest integer, a half to the even one. -/
def roundQuotient (num den : Nat) : Nat :=
  if 2 * (num % den) < den ∨ (2 * (num % den) = den ∧ num / den % 2 = 0) then num / den
  else num / den + 1

/-- How far a value with this integer part is shifted to leave a significand of 53 binary digits. -/
def shiftFor (whole : Nat) : Nat := if whole < 2 * leading then 0 else whole.log2 - 52

/-- The rank nearest to `num / den` units of 2^-1074. It may exceed every finite number's. -/
def nearestRank (num den : Nat) : Nat :=
  let shift := shiftFor (num / den)
  shift * leading + roundQuotient num (den <<< shift)

/-- The number nearest to `num / den` units of 2^-1074, with the given sign. -/
def ofRatio (negative : Bool) (num den : Nat) : Binary64 :=
  if h : nearestRank num den < rankLimit then .finite negative ⟨nearestRank num den, h⟩
  else .infinite negative

/-! ## A number is nearest to its own value -/

theorem roundQuotient_mul (m den : Nat) (h : 0 < den) : roundQuotient (m * den) den = m := by
  simp [roundQuotient, Nat.mul_div_cancel _ h, h]

theorem significand_lt (rank : Nat) : significand rank < 2 * leading := by
  unfold significand leading
  split <;> omega

theorem le_significand {rank : Nat} (h : leading ≤ rank) : leading ≤ significand rank := by
  unfold significand
  rw [if_neg (Nat.not_lt.2 h)]
  exact Nat.le_add_right _ _

theorem significand_pos {rank : Nat} (h : rank ≠ 0) : 0 < significand rank := by
  unfold significand leading
  split <;> omega

theorem shift_mul_add_significand (rank : Nat) :
    shift rank * leading + significand rank = rank := by
  unfold significand shift leading
  split <;> omega

theorem magnitude_pos {rank : Nat} (h : rank ≠ 0) : 0 < magnitude rank := by
  rw [magnitude, Nat.shiftLeft_eq]
  exact Nat.mul_pos (significand_pos h) (Nat.two_pow_pos _)

theorem log2_magnitude {rank : Nat} (h : leading ≤ rank) :
    (magnitude rank).log2 = 52 + shift rank := by
  have pos : magnitude rank ≠ 0 :=
    Nat.ne_of_gt (magnitude_pos (Nat.ne_of_gt (Nat.lt_of_lt_of_le (by decide) h)))
  refine (Nat.log2_eq_iff pos).2 ⟨?_, ?_⟩
  · rw [magnitude, Nat.shiftLeft_eq, Nat.pow_add]
    exact Nat.mul_le_mul_right _ (le_significand h)
  · have e : 52 + shift rank + 1 = 53 + shift rank := by omega
    rw [magnitude, Nat.shiftLeft_eq, e, Nat.pow_add]
    exact Nat.mul_lt_mul_of_pos_right (significand_lt rank) (Nat.two_pow_pos _)

theorem shiftFor_magnitude (rank : Nat) : shiftFor (magnitude rank) = shift rank := by
  unfold shiftFor
  by_cases small : rank < 2 * leading
  · have none : shift rank = 0 := by unfold shift leading at *; omega
    rw [magnitude, none, Nat.shiftLeft_zero, if_pos (significand_lt rank)]
  · have some : 1 ≤ shift rank := by unfold shift leading at *; omega
    have large : leading ≤ rank := by unfold leading at *; omega
    have big : 2 * leading ≤ magnitude rank := by
      rw [magnitude, Nat.shiftLeft_eq, Nat.mul_comm]
      have two : 2 ≤ 2 ^ shift rank := Nat.le_self_pow (Nat.ne_of_gt some) 2
      exact Nat.mul_le_mul (le_significand large) two
    rw [if_neg (Nat.not_lt.2 big), log2_magnitude large]
    exact Nat.add_sub_cancel_left _ _

theorem nearestRank_magnitude (rank den : Nat) (h : 0 < den) :
    nearestRank (magnitude rank * den) den = rank := by
  have pos : 0 < den * 2 ^ shift rank := Nat.mul_pos h (Nat.two_pow_pos _)
  have e : magnitude rank * den = significand rank * (den * 2 ^ shift rank) := by
    rw [magnitude, Nat.shiftLeft_eq, Nat.mul_assoc, Nat.mul_comm _ den]
  simp only [nearestRank, Nat.mul_div_cancel _ h, shiftFor_magnitude, Nat.shiftLeft_eq]
  rw [e, roundQuotient_mul _ _ pos, shift_mul_add_significand]

theorem ofRatio_value (negative : Bool) (rank : Fin rankLimit) (den : Nat) (h : 0 < den) :
    ofRatio negative (magnitude rank.val * den) den = .finite negative rank := by
  simp [ofRatio, nearestRank_magnitude rank.val den h, rank.isLt]

end Binary64
end StylusToScss
