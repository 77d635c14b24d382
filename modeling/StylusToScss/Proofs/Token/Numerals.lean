import StylusToScss.Proofs.Token.Cutting
import StylusToScss.Proofs.Token.Failures
import StylusToScss.Proofs.Token.Spelling

/-!
# Numbers that read back

The lexer takes a number where a digit comes next, or a point and a digit, perhaps behind a hyphen
that may be a sign. What it collects there before the unit has a digit in every run
(`Binary64.Signed`), whatever text stands before or behind it, and every such text is the text of a
number. So the failure that is there for the other case is never reported.

* `Lexeme.signed_numeral`: what is collected is such a decimal.
* `tokenize_numerals`: this holds at every place of a source, and cutting it never fails with an
  invalid number.
-/

namespace StylusToScss

/-! ## What the lexer collects -/

namespace Lexeme

variable {previous : Option Char} {c : Char} {rest text : List Char}

/-- The lexer takes a number here: a digit comes next, or a point and a digit, perhaps behind a
hyphen in a place where it is a sign. -/
def TakesNumber (previous : Option Char) (c : Char) (rest : List Char) : Prop :=
  startsNumber (c :: rest) = true ∨
    (c = '-' ∧ startsNumber rest = true ∧ signAllowed previous = true)

theorem startsNumber_cases (h : startsNumber text = true) :
    (∃ c rest, text = c :: rest ∧ c.isDigit = true) ∨
      ∃ c rest, text = '.' :: c :: rest ∧ c.isDigit = true := by
  unfold startsNumber at h
  split at h
  · exact .inr ⟨_, _, rfl, h⟩
  · exact .inl ⟨_, _, rfl, h⟩
  · cases h

/-- What is collected where digits come next: all of them, and the fraction behind them. -/
theorem unsigned_digits {whole : List Char} (tail : List Char) (some : whole ≠ [])
    (all : Binary64.AllDigits whole) : Binary64.Unsigned (whole ++ fraction tail) := by
  rcases (fraction_spec tail).2 with none | ⟨c, digits, pointed, all'⟩
  · rw [none, List.append_nil]
    exact .whole some all
  · rw [pointed]
    exact .around some all (List.cons_ne_nil _ _) all'

/-- What is collected behind a sign has a digit in every run. -/
theorem numeral_unsigned {sign : List Char} (signed : sign = [] ∨ sign = ['-'])
    (starts : startsNumber text = true) :
    ∃ magnitude, numeral (sign ++ text) = sign ++ magnitude ∧ Binary64.Unsigned magnitude := by
  rcases startsNumber_cases starts with ⟨c, rest, rfl, digit⟩ | ⟨c, rest, rfl, digit⟩
  · have front : (c :: rest).takeWhile Char.isDigit ≠ [] := by simp [digit]
    have all : Binary64.AllDigits ((c :: rest).takeWhile Char.isDigit) :=
      fun d hd => List.mem_takeWhile_imp hd
    have ended : ∀ d ∈ ((c :: rest).dropWhile Char.isDigit).head?, d.isDigit = false := by
      intro d hd
      have first := List.head?_dropWhile_not Char.isDigit (c :: rest)
      rw [Option.mem_def.1 hd] at first
      exact first
    have collected := numeral_digits signed front all ended
    rw [List.takeWhile_append_dropWhile, List.append_assoc] at collected
    exact ⟨_, collected, unsigned_digits _ front all⟩
  · have collected : numeral (sign ++ '.' :: c :: rest) =
        sign ++ '.' :: c :: rest.takeWhile Char.isDigit := by
      rcases signed with rfl | rfl <;> simp [numeral, fraction, digit]
    refine ⟨_, collected, .pointed (List.cons_ne_nil _ _) ?_⟩
    intro d hd
    rcases List.mem_cons.1 hd with rfl | hd
    · exact digit
    · exact List.mem_takeWhile_imp hd

/-- Where the lexer takes a number, what it collects has a digit in every run. -/
theorem signed_numeral (h : TakesNumber previous c rest) :
    Binary64.Signed (numeral (c :: rest)) := by
  rcases h with starts | ⟨rfl, starts, -⟩
  · obtain ⟨magnitude, collected, unsigned⟩ := numeral_unsigned (.inl rfl) starts
    rw [List.nil_append, List.nil_append] at collected
    rw [collected]
    exact .plain unsigned
  · obtain ⟨magnitude, collected, unsigned⟩ := numeral_unsigned (.inr rfl) starts
    rw [List.singleton_append, List.singleton_append] at collected
    rw [collected]
    exact .negative unsigned

theorem lexeme_of_takesNumber (h : TakesNumber previous c rest) :
    lexeme previous c rest = number (c :: rest) := by
  have bare : ¬ (c = '"' ∨ c = '\'') := by
    rintro (rfl | rfl) <;> rcases h with starts | sign
    · exact Bool.false_ne_true starts
    · exact absurd sign.1 (by decide)
    · exact Bool.false_ne_true starts
    · exact absurd sign.1 (by decide)
  unfold lexeme
  exact (if_neg bare).trans (if_pos h)

/-- Where the lexer takes a number, there is one: what it collects is its text, and its unit stands
behind. -/
theorem exists_number (h : TakesNumber previous c rest) :
    ∃ value item, Binary64.read? (numeral (c :: rest)) = some value ∧
      lexeme previous c rest = .ok item ∧
      item.kind = .number value
        (String.ofList (unit ((c :: rest).drop (numeral (c :: rest)).length))) := by
  obtain ⟨value, read⟩ := (signed_numeral h).read?
  rw [lexeme_of_takesNumber h]
  unfold number
  split
  · next none =>
    rw [read] at none
    cases none
  · next found =>
    rw [read] at found
    cases found
    exact ⟨value, _, read, rfl, rfl⟩

/-! ## What can be wrong with a lexeme -/

theorem stringValue_failed {quote : Char} {fault : LexFault}
    (h : stringValue quote text = .error fault) :
    fault = .unterminatedString ∨ fault = .unterminatedEscape := by
  fun_induction stringValue quote text with
  | case1 => exact .inl (Except.error.inj h).symm
  | case2 => cases h
  | case3 => exact .inr (Except.error.inj h).symm
  | case4 _ _ _ ih => exact ih (map_eq_error_iff.1 h)
  | case5 => exact .inl (Except.error.inj h).symm
  | case6 _ _ _ _ _ ih => exact ih (map_eq_error_iff.1 h)

/-- A string that is not closed, or a last backslash in it. -/
theorem string_failed {quote : Char} {e : Misread} (h : string quote text = .error e) :
    e.cause = .unterminatedString ∨ e.cause = .unterminatedEscape := by
  unfold string at h
  split at h
  · cases h
  · cases h
    exact .inr rfl
  · next failed =>
    cases h
    exact stringValue_failed failed

theorem name_failed {e : Misread} (h : name c rest = .error e) : e.cause = .unterminatedUrl := by
  unfold name at h
  simp only at h
  split at h
  · split at h
    · cases h
    · cases h
      rfl
  · cases h

/-- No lexeme is an invalid number. -/
theorem lexeme_failed {e : Misread} (h : lexeme previous c rest = .error e) :
    ∀ text, e.cause ≠ .invalidNumber text := by
  intro text invalid
  by_cases number : TakesNumber previous c rest
  · obtain ⟨value, item, -, read, -⟩ := exists_number number
    rw [read] at h
    cases h
  unfold lexeme at h
  split at h
  · rcases string_failed h with cause | cause <;> rw [cause] at invalid <;> cases invalid
  · replace h := (if_neg number).symm.trans h
    split at h
    · rw [name_failed h] at invalid
      cases invalid
    · split at h
      · cases h
      · split at h
        · cases h
        · split at h
          · cases h
            cases invalid
          · cases h

end Lexeme

/-! ## Numbers in a source -/

/-- At every place of a source where the lexer takes a number, whatever stands before and behind, it
collects a decimal with a digit in every run, and the token is the number that this decimal denotes,
with its unit; and cutting a source into tokens never fails with an invalid number. -/
theorem tokenize_numerals (source : String) :
    (∀ passed c rest, source.toList = passed ++ c :: rest →
      Lexeme.TakesNumber passed.getLast? c rest →
      Binary64.Signed (Lexeme.numeral (c :: rest)) ∧
        ∃ value item, Binary64.read? (Lexeme.numeral (c :: rest)) = some value ∧
          lexeme passed.getLast? c rest = .ok item ∧
          item.kind = .number value (String.ofList
            (Lexeme.unit ((c :: rest).drop (Lexeme.numeral (c :: rest)).length)))) ∧
      ∀ fault, tokenize source = .error fault → ∀ text, fault.cause ≠ .invalidNumber text := by
  refine ⟨fun _ _ _ _ takes => ⟨Lexeme.signed_numeral takes, Lexeme.exists_number takes⟩, ?_⟩
  intro fault failed text
  obtain ⟨_, last, -, fails⟩ := Scan.fails_of_tokenize failed
  cases fails with
  | comment | indentation | misaligned => nofun
  | lexeme _ _ misread => exact Lexeme.lexeme_failed misread text

/-- A sign and a point, digits before two points, and a source that fails behind a number. -/
theorem numerals_dotted :
    (Lexeme.TakesNumber none '-' ".5em".toList ∧
        Lexeme.numeral "-.5em".toList = "-.5".toList ∧ Binary64.Signed "-.5".toList) ∧
      (Lexeme.TakesNumber (some '.') '1' "..5".toList ∧
        Lexeme.numeral "1..5".toList = "1".toList ∧ Binary64.Signed "1".toList) ∧
      tokenize "1...5 \x01" = .error ⟨.unexpectedCharacter '\x01', 1, 7⟩ ∧
        ∀ text, LexFault.unexpectedCharacter '\x01' ≠ .invalidNumber text := by
  have sign : Lexeme.TakesNumber none '-' ".5em".toList := .inr (by decide)
  have range : Lexeme.TakesNumber (some '.') '1' "..5".toList := .inl rfl
  have failed : tokenize "1...5 \x01" = .error ⟨.unexpectedCharacter '\x01', 1, 7⟩ := by
    decide +kernel
  exact ⟨⟨sign, rfl, ((tokenize_numerals "-.5em").1 [] '-' _ rfl sign).1⟩,
    ⟨range, rfl, ((tokenize_numerals ".1..5").1 ['.'] '1' _ rfl range).1⟩, failed,
    (tokenize_numerals "1...5 \x01").2 _ failed⟩

end StylusToScss
