import Mathlib.Data.List.TakeWhile
import Mathlib.Tactic.Ring
import StylusToScss.Binary64.Text

/-!
# The text of a number reads back

A decimal and the text that writes it by position have the same value, although the text has zeros
appended or taken away: scaling the digits and the power of ten together changes neither the
quotient that is rounded nor the cutoffs of `ofDecimal` (`ofDecimal_neg_iff`). With the law of the
shortest decimal, the text of a finite number reads as that number.

* `Numeral`: a text that is a numeral without a sign, and the number that it reads as.
* `numeral_unsignedText`: what stands behind the sign of a finite number is the numeral of it.
* `Signed.read?`: a decimal with a digit in every run is the text of a number.
-/

namespace StylusToScss.Binary64

/-! ## Scaling a quotient -/

theorem roundQuotient_mul_mul (num den : Nat) {c : Nat} (pos : 0 < c) :
    roundQuotient (num * c) (den * c) = roundQuotient num den := by
  have below : 2 * (num % den * c) < den * c ↔ 2 * (num % den) < den := by
    rw [← Nat.mul_assoc]
    exact Nat.mul_lt_mul_right pos
  have half : 2 * (num % den * c) = den * c ↔ 2 * (num % den) = den := by
    rw [← Nat.mul_assoc]
    exact Nat.mul_left_inj (Nat.ne_of_gt pos)
  unfold roundQuotient
  rw [Nat.mul_mod_mul_right, Nat.mul_div_mul_right _ _ pos]
  simp only [below, half]

theorem nearestRank_mul_mul (num den : Nat) {c : Nat} (pos : 0 < c) :
    nearestRank (num * c) (den * c) = nearestRank num den := by
  have shifted (n : Nat) : (den * c) <<< n = den <<< n * c := by
    rw [Nat.shiftLeft_eq, Nat.shiftLeft_eq, Nat.mul_right_comm]
  simp only [nearestRank, Nat.mul_div_mul_right _ _ pos, shifted, roundQuotient_mul_mul _ _ pos]

theorem ofRatio_mul_mul (negative : Bool) (num den : Nat) {c : Nat} (pos : 0 < c) :
    ofRatio negative (num * c) (den * c) = ofRatio negative num den := by
  simp only [ofRatio, nearestRank_mul_mul _ _ pos]

/-- A value nearer to zero than to the smallest positive number is rounded to zero. -/
theorem nearestRank_eq_zero {num den : Nat} (small : 2 * num < den) : nearestRank num den = 0 := by
  have none : num / den = 0 := Nat.div_eq_of_lt (by omega)
  have rest : num % den = num := Nat.mod_eq_of_lt (by omega)
  simp [nearestRank, shiftFor, roundQuotient, none, rest, small]

/-- The sign of a quotient goes to the number and changes nothing else. -/
theorem ofRatio_signed {num den : Nat} {rank : Fin rankLimit} {negative : Bool}
    (h : ofRatio negative num den = .finite negative rank) (sign : Bool) :
    ofRatio sign num den = .finite sign rank := by
  unfold ofRatio at h ⊢
  split at h
  · cases h
    next below => rw [dif_pos below]
  · cases h

/-! ## Scaling a decimal -/

/-- An integer times a power of ten that is not too large, as a quotient. -/
theorem ofDecimal_ofNat {negative : Bool} {digits exponent : Nat} {rank : Fin rankLimit}
    (nonzero : rank.val ≠ 0)
    (h : ofDecimal negative digits exponent = .finite negative rank) :
    ofRatio negative (digits * 10 ^ exponent * one) 1 = .finite negative rank := by
  unfold ofDecimal at h
  split at h
  · cases h
    exact absurd rfl nonzero
  · simp only at h
    split at h
    · cases h
    · exact h

/-- A decimal whose value is not rounded to zero is far from the cutoff for small values. -/
theorem lt_cutoff {digits decimals : Nat} {negative : Bool} {rank : Fin rankLimit}
    (nonzero : rank.val ≠ 0)
    (h : ofRatio negative (digits * one) (10 ^ decimals) = .finite negative rank) :
    digits ≠ 0 ∧ decimals < digits.log2 + 2001 := by
  have large : 10 ^ decimals ≤ 2 * (digits * one) := by
    by_contra small
    have rounded := nearestRank_eq_zero (Nat.not_le.1 small)
    simp only [ofRatio, rounded] at h
    cases h
    exact nonzero rfl
  have digits_ne : digits ≠ 0 := by
    rintro rfl
    have : 0 < 10 ^ decimals := Nat.pow_pos (by decide)
    omega
  refine ⟨digits_ne, ?_⟩
  by_contra far
  have few : digits.log2 + 1 + (places + 1) ≤ decimals := by
    rw [places_eq]
    omega
  have pos : 0 < 2 ^ (places + 1) := Nat.two_pow_pos _
  have small : 2 * (digits * one) < 10 ^ decimals :=
    calc 2 * (digits * one) = digits * 2 ^ (places + 1) := by
          rw [one, Nat.one_shiftLeft, Nat.pow_succ]
          ring
      _ < 2 ^ (digits.log2 + 1) * 2 ^ (places + 1) :=
          Nat.mul_lt_mul_of_pos_right Nat.lt_log2_self pos
      _ = 2 ^ (digits.log2 + 1 + (places + 1)) := (Nat.pow_add 2 _ _).symm
      _ ≤ 2 ^ decimals := Nat.pow_le_pow_right (by decide) few
      _ ≤ 10 ^ decimals := Nat.pow_le_pow_left (by decide) _
  omega

/-- A decimal with places behind the point is the number nearest to the quotient that it writes,
whenever that is not zero. -/
theorem ofDecimal_neg_iff {negative : Bool} {digits decimals : Nat} {rank : Fin rankLimit}
    (nonzero : rank.val ≠ 0) :
    ofDecimal negative digits (-(decimals : Int)) = .finite negative rank ↔
      ofRatio negative (digits * one) (10 ^ decimals) = .finite negative rank := by
  have zeroed : zero negative ≠ .finite negative rank := by
    rintro same
    cases same
    exact nonzero rfl
  cases decimals with
  | zero =>
    constructor
    · intro h
      have whole : ofDecimal negative digits ((0 : Nat) : Int) = .finite negative rank := h
      simpa using ofDecimal_ofNat nonzero whole
    · intro h
      have := (lt_cutoff nonzero h).1
      simpa [ofDecimal, this] using h
  | succ e =>
    have exponent : -((e + 1 : Nat) : Int) = Int.negSucc e := rfl
    rw [exponent]
    unfold ofDecimal
    constructor
    · intro h
      split at h
      · exact absurd h zeroed
      · simp only at h
        split at h
        · exact absurd h zeroed
        · exact h
    · intro h
      obtain ⟨digits_ne, near⟩ := lt_cutoff nonzero h
      rw [if_neg digits_ne]
      simp only
      rw [if_neg (by omega)]
      exact h

/-- The sign of a decimal goes to the number. -/
theorem ofDecimal_signed {digits decimals : Nat} {rank : Fin rankLimit} {negative : Bool}
    (nonzero : rank.val ≠ 0)
    (h : ofDecimal negative digits (-(decimals : Int)) = .finite negative rank) (sign : Bool) :
    ofDecimal sign digits (-(decimals : Int)) = .finite sign rank :=
  (ofDecimal_neg_iff nonzero).2 (ofRatio_signed ((ofDecimal_neg_iff nonzero).1 h) sign)

/-- A decimal without its power of ten: the zeros become digits. -/
theorem ofDecimal_expanded {negative : Bool} {digits exponent : Nat} {rank : Fin rankLimit}
    (nonzero : rank.val ≠ 0)
    (h : ofDecimal negative digits exponent = .finite negative rank) :
    ofDecimal negative (digits * 10 ^ exponent) (-((0 : Nat) : Int)) = .finite negative rank :=
  (ofDecimal_neg_iff nonzero).2 (ofDecimal_ofNat nonzero h)

/-- A decimal without the zeros at the end of its digits. -/
theorem ofDecimal_shortened {negative : Bool} {digits decimals zeros : Nat} {rank : Fin rankLimit}
    (nonzero : rank.val ≠ 0)
    (h : ofDecimal negative (digits * 10 ^ zeros) (-((decimals + zeros : Nat) : Int)) =
      .finite negative rank) :
    ofDecimal negative digits (-(decimals : Int)) = .finite negative rank := by
  rw [ofDecimal_neg_iff nonzero] at h ⊢
  rwa [Nat.mul_right_comm, Nat.pow_add, ofRatio_mul_mul _ _ _ (Nat.pow_pos (by decide))] at h

/-! ## Digits -/

theorem digitsValue_eq (digits : List Char) : digitsValue digits = Nat.ofDigitChars 10 digits 0 :=
  rfl

theorem digitsValue_toDigits (n : Nat) : digitsValue (Nat.toDigits 10 n) = n :=
  Nat.ofDigitChars_ten_toDigits

/-- Zeros behind digits multiply their value. -/
theorem digitsValue_append_zeros (digits : List Char) (n : Nat) :
    digitsValue (digits ++ List.replicate n '0') = digitsValue digits * 10 ^ n := by
  rw [digitsValue_eq, Nat.ofDigitChars_append, Nat.ofDigitChars_replicate_zero, Nat.mul_comm]
  rfl

theorem digitsValue_paddedDigits (n width : Nat) : digitsValue (paddedDigits n width) = n := by
  rw [paddedDigits, digitsValue_eq, Nat.ofDigitChars_append, Nat.ofDigitChars_replicate_zero,
    Nat.mul_zero]
  exact digitsValue_toDigits n

/-- The text holds decimal digits only. -/
def AllDigits (text : List Char) : Prop := ∀ c ∈ text, c.isDigit = true

theorem AllDigits.append {a b : List Char} (ha : AllDigits a) (hb : AllDigits b) :
    AllDigits (a ++ b) :=
  fun c hc => (List.mem_append.1 hc).elim (ha c) (hb c)

theorem allDigits_toDigits (n : Nat) : AllDigits (Nat.toDigits 10 n) :=
  fun _ hc => Nat.isDigit_of_mem_toDigits (by decide) (by decide) hc

theorem allDigits_zeros (n : Nat) : AllDigits (List.replicate n '0') := by
  intro c hc
  rw [List.eq_of_mem_replicate hc]
  rfl

theorem allDigits_paddedDigits (n width : Nat) : AllDigits (paddedDigits n width) :=
  (allDigits_zeros _).append (allDigits_toDigits n)

theorem le_length_paddedDigits (n width : Nat) : width ≤ (paddedDigits n width).length := by
  simp only [paddedDigits, List.length_append, List.length_replicate]
  omega

/-- What is taken off the end of digits are zeros. -/
theorem withoutTrailingZeros_append (digits : List Char) :
    ∃ n, digits = withoutTrailingZeros digits ++ List.replicate n '0' := by
  refine ⟨(digits.reverse.takeWhile (· = '0')).length, ?_⟩
  have zeros : digits.reverse.takeWhile (· = '0') =
      List.replicate (digits.reverse.takeWhile (· = '0')).length '0' :=
    List.eq_replicate_of_mem fun c hc => by simpa using List.mem_takeWhile_imp hc
  have parts := List.takeWhile_append_dropWhile (p := (· = '0')) (l := digits.reverse)
  rw [zeros] at parts
  rw [← List.reverse_inj, withoutTrailingZeros, List.reverse_append, List.reverse_reverse,
    List.reverse_replicate]
  exact parts.symm

/-! ## Numerals -/

/-- Digits by position: the whole part, then a point and the fraction if there is one. -/
def positional (whole fraction : List Char) : List Char :=
  if fraction = [] then whole else whole ++ '.' :: fraction

/-- The text is a numeral without a sign, and with either sign it reads as the number of this
rank. -/
structure Numeral (rank : Fin rankLimit) (text : List Char) : Prop where
  parts : ∃ whole fraction, text = positional whole fraction ∧ whole ≠ [] ∧ AllDigits whole ∧
    AllDigits fraction
  value : ∀ negative, unsigned? negative text = some (.finite negative rank)

/-- What follows the digits at the front of a text stays where it is. -/
theorem leadingDigits_append {digits : List Char} (rest : List Char) (h : AllDigits digits)
    (ended : ∀ c ∈ rest.head?, c.isDigit = false) :
    leadingDigits (digits ++ rest) = digits ∧ afterDigits (digits ++ rest) = rest := by
  have none : rest.takeWhile Char.isDigit = [] ∧ rest.dropWhile Char.isDigit = rest := by
    cases rest with
    | nil => exact ⟨rfl, rfl⟩
    | cons c rest => simp [ended c rfl]
  rw [leadingDigits, afterDigits, List.takeWhile_append_of_pos h, List.dropWhile_append_of_pos h,
    none.1, none.2, List.append_nil]
  exact ⟨rfl, rfl⟩

theorem unsigned?_positional {whole fraction : List Char} (negative : Bool) (some : whole ≠ [])
    (hw : AllDigits whole) (hf : AllDigits fraction) :
    unsigned? negative (positional whole fraction) =
      .some (ofDecimal negative (digitsValue (whole ++ fraction)) (-(fraction.length : Int))) := by
  unfold positional unsigned?
  split
  · next none =>
    obtain ⟨front, behind⟩ := leadingDigits_append [] hw nofun
    rw [List.append_nil] at front behind
    simp [front, behind, none, some, exponent?]
  · have point : ∀ c ∈ ('.' :: fraction).head?, c.isDigit = false := by
      rintro c ⟨⟩
      rfl
    obtain ⟨front, behind⟩ := leadingDigits_append _ hw point
    obtain ⟨front', behind'⟩ := leadingDigits_append [] hf nofun
    rw [List.append_nil] at front' behind'
    simp [front, behind, front', behind', some, exponent?]

/-- Digits around a point are a numeral of the number that they write. -/
theorem numeral_positional {whole fraction : List Char} {rank : Fin rankLimit}
    (nonzero : rank.val ≠ 0) (some : whole ≠ []) (hw : AllDigits whole) (hf : AllDigits fraction)
    (h : ofDecimal false (digitsValue (whole ++ fraction)) (-(fraction.length : Int)) =
      .finite false rank) : Numeral rank (positional whole fraction) := by
  refine ⟨⟨whole, fraction, rfl, some, hw, hf⟩, fun negative => ?_⟩
  rw [unsigned?_positional negative some hw hf, ofDecimal_signed nonzero h]

/-- Digits with a point before the last `decimals` of them, and without the zeros at their end. -/
theorem numeral_pointed {padded : List Char} {decimals : Nat} {rank : Fin rankLimit}
    (nonzero : rank.val ≠ 0) (all : AllDigits padded) (wide : decimals < padded.length)
    (h : ofDecimal false (digitsValue padded) (-(decimals : Int)) = .finite false rank) :
    Numeral rank (positional (padded.take (padded.length - decimals))
      (withoutTrailingZeros (padded.drop (padded.length - decimals)))) := by
  have whole := List.take_append_drop (padded.length - decimals) padded
  have front_length : (padded.take (padded.length - decimals)).length ≠ 0 := by
    rw [List.length_take]
    omega
  have back_length : (padded.drop (padded.length - decimals)).length = decimals := by
    rw [List.length_drop]
    omega
  generalize padded.take (padded.length - decimals) = front at *
  generalize padded.drop (padded.length - decimals) = back at *
  obtain ⟨zeros, trailing⟩ := withoutTrailingZeros_append back
  generalize withoutTrailingZeros back = fraction at *
  subst trailing whole
  rw [← back_length, List.length_append, List.length_replicate, ← List.append_assoc,
    digitsValue_append_zeros] at h
  have all_fraction : AllDigits fraction := fun c hc =>
    all c (List.mem_append_right _ (List.mem_append_left _ hc))
  exact numeral_positional nonzero (fun none => front_length (congrArg List.length none))
    (fun c hc => all c (List.mem_append_left _ hc)) all_fraction (ofDecimal_shortened nonzero h)

/-- A decimal that is not zero is written as a numeral of its number. -/
theorem Decimal.numeral_text {d : Decimal} {rank : Fin rankLimit} (nonzero : rank.val ≠ 0)
    (h : d.number = .finite false rank) : Numeral rank d.text := by
  obtain ⟨digits, exponent⟩ := d
  replace h : ofDecimal false digits exponent = .finite false rank := h
  cases exponent with
  | ofNat e =>
    have notNil : Nat.toDigits 10 digits ++ List.replicate e '0' ≠ [] := by
      simp [Nat.toDigits_ne_nil]
    have all := (allDigits_toDigits digits).append (allDigits_zeros e)
    refine numeral_positional nonzero notNil all (show AllDigits [] from nofun) ?_
    rw [List.append_nil, digitsValue_append_zeros, digitsValue_toDigits]
    exact ofDecimal_expanded nonzero h
  | negSucc e =>
    rw [← digitsValue_paddedDigits digits (e + 2)] at h
    exact numeral_pointed nonzero (allDigits_paddedDigits _ _)
      (Nat.lt_of_succ_le (le_length_paddedDigits digits (e + 2))) h

/-- The text of the number of this rank without a sign. -/
def unsignedText (rank : Fin rankLimit) : List Char :=
  if rank.val = 0 then ['0'] else (shortest rank).text

theorem numeral_unsignedText (rank : Fin rankLimit) : Numeral rank (unsignedText rank) := by
  unfold unsignedText
  split
  · next none =>
    obtain rfl : rank = ⟨0, by decide⟩ := Fin.ext none
    refine ⟨⟨['0'], [], rfl, List.cons_ne_nil _ _, ?_, nofun⟩, ?_⟩
    · rintro c (_ | ⟨_, ⟨⟩⟩)
      rfl
    · decide
  · next nonzero => exact Decimal.numeral_text nonzero (ofDecimal_shortest rank nonzero)

/-- The sign of a number that is shown: zero has none. -/
def shownSign (negative : Bool) (rank : Fin rankLimit) : Bool := negative && rank.val != 0

/-- A finite number in a stylesheet is a sign and a numeral. -/
theorem toList_formatNumber (negative : Bool) (rank : Fin rankLimit) :
    (Binary64.finite negative rank).formatNumber.toList =
      if shownSign negative rank then '-' :: unsignedText rank else unsignedText rank := by
  unfold formatNumber shownSign unsignedText
  by_cases none : rank.val = 0
  · simp [isZero, none]
  · cases negative with
    | false => simp [isZero, none, text, chars]
    | true => simp [isZero, none, text, chars]

theorem toLower_eq_of_isDigit {c : Char} (digit : c.isDigit = true) : c.toLower = c := by
  unfold Char.isDigit at digit
  unfold Char.toLower
  simp only [Bool.and_eq_true, decide_eq_true_eq, ge_iff_le, UInt32.le_iff_toNat_le] at digit
  rw [dif_neg]
  rintro ⟨low, -⟩
  have := UInt32.le_iff_toNat_le.1 (ge_iff_le.1 low)
  have : '9'.val.toNat < 'A'.val.toNat := by decide
  omega

/-- No name of infinity or of what is not a number starts with this character. -/
structure Unnamed (c : Char) : Prop where
  caseless : c.toLower = c
  noLetter : c ≠ 'i' ∧ c ≠ 'n'

/-- A digit has no other case, so no name starts with it. -/
theorem unnamed_of_isDigit {c : Char} (digit : c.isDigit = true) : Unnamed c := by
  refine ⟨toLower_eq_of_isDigit digit, ?_, ?_⟩
  · rintro rfl
    cases digit
  · rintro rfl
    cases digit

/-- A digit is no sign. -/
theorem bare_of_isDigit {c : Char} (digit : c.isDigit = true) : c ≠ '-' ∧ c ≠ '+' := by
  constructor
  · rintro rfl
    cases digit
  · rintro rfl
    cases digit

namespace Unnamed

variable {c : Char} {rest : List Char}

theorem named?_eq_none (h : Unnamed c) (negative : Bool) : named? negative (c :: rest) = none := by
  have other (name : String) (c' : Char) (starts : name.toList.head? = some c') (ne : c ≠ c') :
      String.ofList ((c :: rest).map Char.toLower) ≠ name := by
    rintro rfl
    rw [String.toList_ofList, List.map_cons, h.caseless] at starts
    exact ne (Option.some.inj starts)
  unfold named?
  simp only
  rw [if_neg, if_neg]
  · exact other "nan" 'n' (by decide) h.noLetter.2
  · rintro (same | same)
    · exact other "inf" 'i' (by decide) h.noLetter.1 same
    · exact other "infinity" 'i' (by decide) h.noLetter.1 same

/-- A text that starts with no sign and no name is read as digits. -/
theorem read?_bare (h : Unnamed c) (bare : c ≠ '-' ∧ c ≠ '+') :
    Binary64.read? (c :: rest) = unsigned? false (c :: rest) := by
  have unsigned : Binary64.read? (c :: rest) =
      (named? false (c :: rest)).or (unsigned? false (c :: rest)) := by
    unfold Binary64.read?
    split
    · next same =>
      split at same
      · next sign => exact absurd (List.cons.inj sign).1 bare.1
      · next sign => exact absurd (List.cons.inj sign).1 bare.2
      · cases same; rfl
  rw [unsigned, h.named?_eq_none]
  rfl

/-- Behind a hyphen too. -/
theorem read?_hyphen (h : Unnamed c) :
    Binary64.read? ('-' :: c :: rest) = unsigned? true (c :: rest) := by
  simp [Binary64.read?, h.named?_eq_none]

end Unnamed

namespace Numeral

variable {rank : Fin rankLimit} {text : List Char}

/-- A numeral starts with a digit. -/
theorem head_isDigit (h : Numeral rank text) :
    ∃ c rest, text = c :: rest ∧ c.isDigit = true := by
  obtain ⟨whole, fraction, rfl, some, all, -⟩ := h.parts
  cases whole with
  | nil => exact absurd rfl some
  | cons c whole =>
    unfold positional
    split
    · exact ⟨c, whole, rfl, all c (.head _)⟩
    · exact ⟨c, _, rfl, all c (.head _)⟩

/-- A numeral reads as its number. -/
theorem read? (h : Numeral rank text) : Binary64.read? text = some (.finite false rank) := by
  obtain ⟨c, rest, rfl, digit⟩ := h.head_isDigit
  rw [(unnamed_of_isDigit digit).read?_bare (bare_of_isDigit digit), h.value]

/-- A numeral behind a hyphen reads as the negative of its number. -/
theorem read?_negative (h : Numeral rank text) :
    Binary64.read? ('-' :: text) = some (.finite true rank) := by
  obtain ⟨c, rest, rfl, digit⟩ := h.head_isDigit
  rw [(unnamed_of_isDigit digit).read?_hyphen, h.value]

end Numeral

/-! ## Decimals with a digit in every run -/

/-- A decimal with a digit in every run: digits, digits around a point, or a point with digits behind
it. -/
inductive Unsigned : List Char → Prop
  | whole {digits : List Char} (some : digits ≠ []) (all : AllDigits digits) : Unsigned digits
  | around {whole fraction : List Char} (some : whole ≠ []) (all : AllDigits whole)
      (some' : fraction ≠ []) (all' : AllDigits fraction) : Unsigned (whole ++ '.' :: fraction)
  | pointed {fraction : List Char} (some : fraction ≠ []) (all : AllDigits fraction) :
      Unsigned ('.' :: fraction)

/-- Such a decimal, perhaps behind a hyphen. -/
inductive Signed : List Char → Prop
  | plain {text : List Char} (unsigned : Unsigned text) : Signed text
  | negative {text : List Char} (unsigned : Unsigned text) : Signed ('-' :: text)

variable {text : List Char}

theorem Numeral.unsigned {rank : Fin rankLimit} (h : Numeral rank text) : Unsigned text := by
  obtain ⟨whole, fraction, rfl, some, hw, hf⟩ := h.parts
  unfold positional
  split
  · exact .whole some hw
  · next pointed => exact .around some hw pointed hf

theorem Unsigned.head (h : Unsigned text) :
    ∃ c rest, text = c :: rest ∧ (c.isDigit = true ∨ c = '.') := by
  cases h with
  | whole some all =>
    obtain ⟨c, rest, rfl⟩ := List.exists_cons_of_ne_nil some
    exact ⟨c, rest, rfl, .inl (all c (.head _))⟩
  | around some all =>
    obtain ⟨c, rest, rfl⟩ := List.exists_cons_of_ne_nil some
    exact ⟨c, _, rfl, .inl (all c (.head _))⟩
  | pointed => exact ⟨'.', _, rfl, .inr rfl⟩

/-- Digits behind a point need none before it. -/
theorem unsigned?_pointed {fraction : List Char} (negative : Bool) (some : fraction ≠ [])
    (all : AllDigits fraction) : unsigned? negative ('.' :: fraction) =
      .some (ofDecimal negative (digitsValue fraction) (-(fraction.length : Int))) := by
  obtain ⟨front, behind⟩ := leadingDigits_append [] all nofun
  rw [List.append_nil] at front behind
  have point : leadingDigits ('.' :: fraction) = [] ∧
      afterDigits ('.' :: fraction) = '.' :: fraction := ⟨rfl, rfl⟩
  simp [unsigned?, point, front, behind, some, exponent?]

theorem Unsigned.unsigned? (h : Unsigned text) (negative : Bool) :
    ∃ value, Binary64.unsigned? negative text = some value := by
  cases h with
  | whole some all =>
    have none : AllDigits [] := nofun
    have read := unsigned?_positional negative some all none
    rw [positional, if_pos rfl] at read
    exact ⟨_, read⟩
  | around some all some' all' =>
    have read := unsigned?_positional negative some all all'
    rw [positional, if_neg some'] at read
    exact ⟨_, read⟩
  | pointed some all => exact ⟨_, unsigned?_pointed negative some all⟩

/-- A decimal with a digit in every run is the text of a number. -/
theorem Signed.read? (h : Signed text) : ∃ value, Binary64.read? text = some value := by
  have unnamed {c : Char} (first : c.isDigit = true ∨ c = '.') : Unnamed c := by
    rcases first with digit | rfl
    · exact unnamed_of_isDigit digit
    · exact ⟨by decide, by decide⟩
  cases h with
  | plain unsigned =>
    obtain ⟨value, read⟩ := unsigned.unsigned? false
    obtain ⟨c, rest, rfl, first⟩ := unsigned.head
    have bare : c ≠ '-' ∧ c ≠ '+' := by
      rcases first with digit | rfl
      · exact bare_of_isDigit digit
      · decide
    exact ⟨value, ((unnamed first).read?_bare bare).trans read⟩
  | negative unsigned =>
    obtain ⟨value, read⟩ := unsigned.unsigned? true
    obtain ⟨c, rest, rfl, first⟩ := unsigned.head
    exact ⟨value, (unnamed first).read?_hyphen.trans read⟩

end StylusToScss.Binary64
