import Mathlib.Data.List.TakeWhile
import StylusToScss.Proofs.Except
import StylusToScss.Token.Lexeme

/-!
# How lexemes are spelled

`Kind.SpelledBy` says which text a kind stands for, without reference to how the text is read: the
mark of a punctuation or an operator, the name of an identifier, a string between its quotes, a
numeral and its unit. `lexeme_spelledBy` proves it of the lexeme at the front of any text, together
with the fact that the spelling is what the text starts with.
-/

namespace StylusToScss

open Text

/-! ## Spellings -/

/-- The mark that a kind of punctuation or operator is written with. -/
def Kind.mark? : Kind → Option String
  | .colon => some ":"
  | .semicolon => some ";"
  | .comma => some ","
  | .leftParen => some "("
  | .rightParen => some ")"
  | .leftBrace => some "\x7b"
  | .rightBrace => some "\x7d"
  | .leftBracket => some "["
  | .rightBracket => some "]"
  | .dot => some "."
  | .dotDot => some ".."
  | .dotDotDot => some "..."
  | .plus => some "+"
  | .minus => some "-"
  | .star => some "*"
  | .starStar => some "**"
  | .slash => some "/"
  | .percent => some "%"
  | .assign => some "="
  | .conditionalAssign => some "?="
  | .equal => some "=="
  | .notEqual => some "!="
  | .less => some "<"
  | .greater => some ">"
  | .lessEqual => some "<="
  | .greaterEqual => some ">="
  | .bang => some "!"
  | .andAnd => some "&&"
  | .orOr => some "||"
  | .ampersand => some "&"
  | _ => none

/-- A numeral: perhaps a hyphen, perhaps digits, and perhaps a point with digits behind it. -/
structure IsNumeral (text : List Char) : Prop where
  parts : ∃ sign whole fraction, text = sign ++ whole ++ fraction ∧
    (sign = [] ∨ sign = ['-']) ∧ (∀ c ∈ whole, c.isDigit = true) ∧
    (fraction = [] ∨ ∃ c digits, fraction = '.' :: c :: digits ∧
      ∀ d ∈ c :: digits, d.isDigit = true)

/-- The text that a kind of token stands for. A token that opens or closes a level, or ends the
input, stands for no text. -/
def Kind.SpelledBy (text : List Char) : Kind → Prop
  | .indent | .dedent | .endOfInput => text = []
  | .newline => text = ['\n'] ∨ text = ['\r']
  | .ident name => text = name.toList
  | .hash word => text = '#' :: word.toList
  | .atWord word => text = '@' :: word.toList
  | .string value quote => (quote = '"' ∨ quote = '\'') ∧ text = quote :: value.toList ++ [quote]
  | .url raw => text = raw.toList
  | .number value unit =>
    ∃ numeral, text = numeral ++ unit.toList ∧ IsNumeral numeral ∧
      Binary64.read? numeral = some value
  | .symbol c => text = [c]
  | kind => kind.mark? = some (String.ofList text)

/-! ## What the readers take -/

namespace Lexeme

/-- A lexeme read from the front of a text: its spelling starts the text and is what its kind stands
for. -/
structure FrontOf (text : List Char) (item : Lexeme) : Prop where
  starts : item.spelling <+: text
  spelled : item.kind.SpelledBy item.spelling

/-- What starts a text and what starts the text behind it start the text together. -/
theorem prefix_append_of_drop {a b text : List Char} (ha : a <+: text)
    (hb : b <+: text.drop a.length) : a ++ b <+: text := by
  have both := (List.prefix_append_right_inj a).2 hb
  rwa [List.prefix_iff_eq_append.1 ha] at both

theorem nameTail_isPrefix (text : List Char) : nameTail text <+: text := by
  fun_induction nameTail text with
  | case1 => exact List.prefix_rfl
  | case2 c rest _ ih => exact (List.prefix_cons_inj c).2 ih
  | case3 => exact List.nil_prefix

/-- The address of a closed `url(` and its parenthesis start the text. -/
theorem address_isPrefix {text inner : List Char} (h : address text = (inner, true)) :
    inner ++ [')'] <+: text := by
  unfold address at h
  simp only [Prod.mk.injEq] at h
  obtain ⟨rfl, closed⟩ := h
  obtain ⟨more, hm⟩ := List.head?_eq_some_iff.1 (eq_of_beq closed)
  exact prefix_append_of_drop (List.takeWhile_prefix _) ⟨more, hm.symm⟩

theorem name_frontOf {c : Char} {rest : List Char} {item : Lexeme} (h : name c rest = .ok item) :
    FrontOf (c :: rest) item := by
  have word : c :: nameTail rest <+: c :: rest :=
    (List.prefix_cons_inj c).2 (nameTail_isPrefix rest)
  unfold name at h
  simp only at h
  split at h
  · split at h
    · next inner closed =>
      cases h
      refine ⟨?_, by simp [Kind.SpelledBy]⟩
      show c :: nameTail rest ++ inner ++ [')'] <+: c :: rest
      rw [List.append_assoc]
      exact prefix_append_of_drop word (address_isPrefix closed)
    · cases h
  · cases h
    exact ⟨word, by simp [Kind.SpelledBy]⟩

/-- The value of a string and its closing quote start the text behind the opening one. -/
theorem stringValue_isPrefix {quote : Char} {text value : List Char}
    (h : stringValue quote text = .ok value) : value ++ [quote] <+: text := by
  fun_induction stringValue quote text generalizing value with
  | case1 | case3 | case5 => cases h
  | case2 rest =>
    cases h
    exact (List.prefix_cons_inj quote).2 List.nil_prefix
  | case4 _ _ rest ih =>
    obtain ⟨more, hm, rfl⟩ := map_eq_ok_iff.1 h
    exact (List.prefix_cons_inj _).2 ((List.prefix_cons_inj _).2 (ih hm))
  | case6 c rest _ _ _ ih =>
    obtain ⟨more, hm, rfl⟩ := map_eq_ok_iff.1 h
    exact (List.prefix_cons_inj _).2 (ih hm)

theorem string_frontOf {quote : Char} {rest : List Char} {item : Lexeme}
    (isQuote : quote = '"' ∨ quote = '\'') (h : string quote rest = .ok item) :
    FrontOf (quote :: rest) item := by
  unfold string at h
  split at h
  · next value hv =>
    cases h
    exact ⟨(List.prefix_cons_inj quote).2 (stringValue_isPrefix hv), isQuote, by simp⟩
  · cases h
  · cases h

theorem unit_isPrefix (text : List Char) : unit text <+: text := by
  unfold unit
  split
  · exact (List.prefix_cons_inj '%').2 List.nil_prefix
  · exact List.takeWhile_prefix _

/-- What is read as a fraction starts the text, and is a point with digits or nothing. -/
theorem fraction_spec (text : List Char) : fraction text <+: text ∧
    (fraction text = [] ∨ ∃ c digits, fraction text = '.' :: c :: digits ∧
      ∀ d ∈ c :: digits, d.isDigit = true) := by
  unfold fraction
  split
  · next c rest =>
    split
    · next digit =>
      refine ⟨(List.prefix_cons_inj '.').2 ((List.prefix_cons_inj c).2
        (List.takeWhile_prefix _)), .inr ⟨c, rest.takeWhile Char.isDigit, rfl, ?_⟩⟩
      rintro d (_ | ⟨_, hd⟩)
      · exact digit
      · exact List.mem_takeWhile_imp hd
    · exact ⟨List.nil_prefix, .inl rfl⟩
  · exact ⟨List.nil_prefix, .inl rfl⟩

/-- The sign of a numeral is a hyphen at the front of the text, or nothing. -/
theorem sign_spec (text : List Char) :
    (text.takeWhile (· == '-')).take 1 = [] ∨
      ∃ rest, text = '-' :: rest ∧ (text.takeWhile (· == '-')).take 1 = ['-'] := by
  cases text with
  | nil => exact .inl rfl
  | cons c rest =>
    by_cases h : c = '-'
    · subst h
      exact .inr ⟨rest, rfl, by simp⟩
    · exact .inl (by simp [h])

theorem sign_isPrefix (text : List Char) : (text.takeWhile (· == '-')).take 1 <+: text :=
  (List.take_prefix 1 _).trans (List.takeWhile_prefix _)

theorem numeral_isPrefix (text : List Char) : numeral text <+: text := by
  refine prefix_append_of_drop (prefix_append_of_drop (sign_isPrefix text)
    (List.takeWhile_prefix _)) ?_
  rw [List.length_append]
  exact (fraction_spec _).1

theorem numeral_isNumeral (text : List Char) : IsNumeral (numeral text) := by
  refine ⟨_, _, _, rfl, ?_, fun c hc => List.mem_takeWhile_imp hc, (fraction_spec _).2⟩
  rcases sign_spec text with none | ⟨_, _, hyphen⟩
  · exact .inl none
  · exact .inr hyphen

theorem number_frontOf {text : List Char} {item : Lexeme} (h : number text = .ok item) :
    FrontOf text item := by
  unfold number at h
  split at h
  · cases h
  · next value hv =>
    cases h
    exact ⟨prefix_append_of_drop (numeral_isPrefix text) (unit_isPrefix _), _, by simp,
      numeral_isNumeral text, hv⟩

theorem spelledBy_of_mark? {kind : Kind} {text : List Char}
    (h : kind.mark? = some (String.ofList text)) : kind.SpelledBy text := by
  cases kind <;> first | exact h | cases h

/-- The table of fixed spellings gives each kind its mark. -/
theorem mark_of_mem_fixedKinds :
    ∀ entry ∈ Kind.fixedKinds, entry.2.mark? = some (String.ofList entry.1) := by
  decide

theorem fixed?_spec {text spelling : List Char} {kind : Kind}
    (h : fixed? text = some (spelling, kind)) : spelling <+: text ∧ kind.SpelledBy spelling := by
  refine ⟨?_, spelledBy_of_mark? (mark_of_mem_fixedKinds _ (List.mem_of_find?_eq_some h))⟩
  simpa using List.find?_some h

end Lexeme

/-- The lexeme at the front of a text is spelled there as its kind says, whatever stands before. -/
theorem lexeme_frontOf {previous : Option Char} {c : Char} {rest : List Char} {item : Lexeme}
    (h : lexeme previous c rest = .ok item) : item.FrontOf (c :: rest) := by
  unfold lexeme at h
  split at h
  · next quote => exact Lexeme.string_frontOf quote h
  · split at h
    · exact Lexeme.number_frontOf h
    · split at h
      · exact Lexeme.name_frontOf h
      · split at h
        · next marked =>
          have front := (List.prefix_cons_inj c).2 (List.takeWhile_prefix (l := rest) fun c =>
            isAlphanumeric c || c == '-' || c == '_')
          cases h
          refine ⟨front, ?_⟩
          rcases marked.1 with rfl | rfl <;> simp [Kind.SpelledBy]
        · split at h
          · next fixed =>
            cases h
            exact ⟨(Lexeme.fixed?_spec fixed).1, (Lexeme.fixed?_spec fixed).2⟩
          · split at h
            · cases h
            · cases h
              exact ⟨(List.prefix_cons_inj c).2 List.nil_prefix, rfl⟩

end StylusToScss
