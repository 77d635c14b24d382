import Mathlib.Data.List.TakeWhile
import StylusToScss.Proofs.Binary64.ReadBack
import StylusToScss.Proofs.Token.Steps
import StylusToScss.Proofs.Value.Leaves
import StylusToScss.Token.Stream

/-!
# Cutting one line

`Cuts` says into which kinds a text on one line is cut, up to a place in it. The text behind that
place is part of the judgment, because a lexeme takes as many characters as it can: it ends only
where no more characters of it follow (`Ended`).

* `lexeme_word`, `lexeme_numeral`, `lexeme_operator`: names, numbers and operators at the front of a
  text that goes on behind them.
* `tokenize_of_cuts`: a line that is cut to its end has tokens of these kinds.
-/

namespace StylusToScss

open Text

/-! ## Where a lexeme ends -/

/-- No lexeme goes on into the text: it is empty, or a blank or a closing parenthesis comes next. -/
def Ended (rest : List Char) : Prop := ∀ c ∈ rest.head?, c = ' ' ∨ c = ')'

theorem ended_nil : Ended [] := nofun

theorem ended_blank (rest : List Char) : Ended (' ' :: rest) := by
  rintro c ⟨⟩
  exact .inl rfl

theorem ended_closing (rest : List Char) : Ended (')' :: rest) := by
  rintro c ⟨⟩
  exact .inr rfl

namespace Lexeme

variable {rest : List Char}

theorem ne_of_isDigit {c d : Char} (digit : c.isDigit = true) (other : d.isDigit = false) :
    c ≠ d := by
  rintro rfl
  rw [digit] at other
  cases other

/-- No blank, no line break and no comment starts with a digit. -/
theorem solid_of_isDigit {c : Char} (digit : c.isDigit = true) :
    c ∉ [' ', '\t', '\n', '\r', '/'] := by
  simp only [List.mem_cons, List.not_mem_nil, or_false, not_or]
  exact ⟨ne_of_isDigit digit rfl, ne_of_isDigit digit rfl, ne_of_isDigit digit rfl,
    ne_of_isDigit digit rfl, ne_of_isDigit digit rfl⟩

/-! ## Names -/

/-- The rest of a name is the same where the text goes on behind it. -/
theorem nameTail_append {tail : List Char} (whole : nameTail tail = tail) (ended : Ended rest) :
    nameTail (tail ++ rest) = tail := by
  induction tail with
  | nil =>
    cases rest with
    | nil => rfl
    | cons c rest =>
      have other : (isAlphanumeric c || c == '_' || c == '$' || c == '-') = false := by
        rcases ended c rfl with rfl | rfl <;> decide
      simp only [Bool.or_eq_false_iff] at other
      simp [nameTail, other]
  | cons c tail ih =>
    rw [nameTail] at whole
    split at whole
    · next continues =>
      have same : continuesName (tail ++ rest) = true ∨ continuesName tail = false := by
        cases tail with
        | nil => exact .inr rfl
        | cons d tail => exact (Bool.eq_false_or_eq_true (continuesName (d :: tail)))
      rw [List.cons_append, nameTail, ih (List.cons.inj whole).2, if_pos]
      rcases same with same | same
      · simp only [same, Bool.and_true, Bool.or_eq_true, Bool.and_eq_true] at continues ⊢
        exact continues.imp id And.left
      · simp only [same, Bool.and_false, Bool.or_false, Bool.or_eq_true] at continues ⊢
        exact .inl continues
    · cases whole

/-- The first characters of variables and of the words that operators are written with. -/
def wordStarts : List Char := ['$', 'a', 'n', 'o']

theorem mem_wordStarts {c : Char} :
    c ∈ wordStarts ↔ c = '$' ∨ c = 'a' ∨ c = 'n' ∨ c = 'o' := by
  simp [wordStarts]

theorem lexeme_word {c : Char} {tail : List Char} (previous : Option Char) (first : c ∈ wordStarts)
    (whole : nameTail tail = tail) (ended : Ended rest) :
    lexeme previous c (tail ++ rest) =
      .ok ⟨.ident (String.ofList (c :: tail)), c :: tail, List.cons_ne_nil _ _⟩ := by
  have named : name c (tail ++ rest) =
      .ok ⟨.ident (String.ofList (c :: tail)), c :: tail, List.cons_ne_nil _ _⟩ := by
    have other : c ≠ 'u' := by
      rintro rfl
      exact absurd first (by decide)
    unfold name
    simp [nameTail_append whole ended, other]
  have starts : c ≠ '"' ∧ c ≠ '\'' ∧ c ≠ '.' ∧ c.isDigit = false ∧ c ≠ '-' ∧
      (isAlphabetic c = true ∨ c = '$') := by
    rcases mem_wordStarts.1 first with rfl | rfl | rfl | rfl <;> decide
  obtain ⟨double, single, point, digit, hyphen, letter⟩ := starts
  have number : startsNumber (c :: (tail ++ rest)) = false := by
    unfold startsNumber
    split
    · next same => exact absurd (List.cons.inj same).1 point
    · next same => exact (List.cons.inj same).1 ▸ digit
    · rfl
  unfold lexeme
  rw [if_neg (by simp [double, single]), if_neg (by simp [number, hyphen]), if_pos, named]
  exact letter.imp id fun h => .inr (.inl h)

/-! ## Numbers -/

/-- No digit and no point comes next. -/
def EndsNumeral (more : List Char) : Prop := ∀ c ∈ more.head?, c.isDigit = false ∧ c ≠ '.'

theorem fraction_pointed {digits more : List Char} (some : digits ≠ [])
    (all : Binary64.AllDigits digits) (ended : EndsNumeral more) :
    fraction ('.' :: (digits ++ more)) = '.' :: digits := by
  cases digits with
  | nil => exact absurd rfl some
  | cons d digits =>
    have rest := (Binary64.leadingDigits_append _ (fun c hc => all c (.tail _ hc))
      fun c hc => (ended c hc).1).1
    simp only [List.cons_append, fraction, all d (.head _), if_true]
    rw [← Binary64.leadingDigits, rest]

theorem fraction_eq_nil {more : List Char} (ended : EndsNumeral more) : fraction more = [] := by
  unfold fraction
  split
  · exact absurd rfl (ended '.' rfl).2
  · rfl

/-- A sign, digits and what else is read as the fraction behind them. -/
theorem numeral_digits {sign whole tail : List Char} (signed : sign = [] ∨ sign = ['-'])
    (some : whole ≠ []) (all : Binary64.AllDigits whole)
    (ended : ∀ c ∈ tail.head?, c.isDigit = false) :
    numeral (sign ++ (whole ++ tail)) = sign ++ whole ++ fraction tail := by
  have front : ((sign ++ (whole ++ tail)).takeWhile (· == '-')).take 1 = sign := by
    cases whole with
    | nil => exact absurd rfl some
    | cons c whole =>
      have other : c ≠ '-' := ne_of_isDigit (all c (.head _)) rfl
      rcases signed with rfl | rfl <;> simp [other]
  have digits := (Binary64.leadingDigits_append tail all ended).1
  have behind : (sign ++ (whole ++ tail)).drop (sign.length + whole.length) = tail := by
    rw [← List.append_assoc, ← List.length_append, List.drop_left]
  unfold numeral
  simp only [front, List.drop_left]
  rw [← Binary64.leadingDigits, digits, behind]

/-- A decimal ends where its digits do. -/
theorem numeral_append {sign text more : List Char} (signed : sign = [] ∨ sign = ['-'])
    (h : Binary64.Unsigned text) (ended : EndsNumeral more) :
    numeral (sign ++ (text ++ more)) = sign ++ text := by
  cases h with
  | whole some all =>
    rw [numeral_digits signed some all fun c hc => (ended c hc).1, fraction_eq_nil ended,
      List.append_nil]
  | @around whole digits some all some' all' =>
    have point : ∀ c ∈ ('.' :: (digits ++ more)).head?, c.isDigit = false := by
      rintro c ⟨⟩
      rfl
    rw [List.append_assoc, List.cons_append, numeral_digits signed some all point,
      fraction_pointed some' all' ended, List.append_assoc]
  | @pointed digits some all =>
    have front : (sign ++ '.' :: (digits ++ more)).takeWhile (· == '-') = sign := by
      rcases signed with rfl | rfl <;> rfl
    have short : sign.take 1 = sign := by rcases signed with rfl | rfl <;> rfl
    unfold numeral
    simp only [List.cons_append, front, short, List.drop_left]
    have none : ('.' :: (digits ++ more)).takeWhile Char.isDigit = [] := rfl
    rw [none, List.length_nil, Nat.add_zero, List.drop_left, fraction_pointed some all ended,
      List.append_nil]

/-! ## Units -/

/-- The unit ends where the text goes on behind it. -/
theorem unit_append {letters : List Char}
    (readable : letters = ['%'] ∨ ∀ c ∈ letters, c.isAlpha = true) (ended : Ended rest) :
    unit (letters ++ rest) = letters := by
  rcases readable with rfl | all
  · rfl
  · have behind : rest.takeWhile Char.isAlpha = [] := by
      cases rest with
      | nil => rfl
      | cons c rest => rcases ended c rfl with rfl | rfl <;> rfl
    have other : ∀ more, letters ++ rest ≠ '%' :: more := by
      intro more same
      cases letters with
      | nil =>
        have := ended '%' (by rw [← List.nil_append rest, same]; rfl)
        revert this
        decide
      | cons c letters =>
        cases same
        exact absurd (all '%' (.head _)) (by decide)
    unfold unit
    split
    · next same => exact absurd same (other _)
    · rw [List.takeWhile_append_of_pos all, behind, List.append_nil]

theorem not_isDigit_of_isAlpha {c : Char} (letter : c.isAlpha = true) : c.isDigit = false := by
  have low : 'A'.val ≤ c.val ∨ 'a'.val ≤ c.val := by
    rcases Bool.or_eq_true_iff.1 letter with upper | lower
    · exact .inl (of_decide_eq_true upper).1
    · exact .inr (of_decide_eq_true (Bool.and_eq_true_iff.1 lower).1)
  have codes : '9'.val.toNat < 'A'.val.toNat ∧ '9'.val.toNat < 'a'.val.toNat := by decide
  have high : ¬ c.val ≤ '9'.val := by
    simp only [UInt32.le_iff_toNat_le] at low ⊢
    omega
  refine Bool.and_eq_false_iff.2 (.inr ?_)
  exact decide_eq_false high

/-- A unit and what follows it start with no digit and no point. -/
theorem endsNumeral_append {letters : List Char}
    (readable : letters = ['%'] ∨ ∀ c ∈ letters, c.isAlpha = true) (ended : Ended rest) :
    EndsNumeral (letters ++ rest) := by
  intro c here
  rcases readable with rfl | all
  · cases here
    decide
  · cases letters with
    | nil => rcases ended c here with rfl | rfl <;> decide
    | cons _ letters =>
      cases here
      have letter := all c (.head _)
      refine ⟨not_isDigit_of_isAlpha letter, ?_⟩
      rintro rfl
      cases letter

/-- A number at the front of a text: its sign, its numeral and its unit. -/
theorem number_append (negative : Bool) {sign text letters : List Char}
    {rank : Fin Binary64.rankLimit} (signed : sign = if negative then ['-'] else [])
    (h : Binary64.Numeral rank text)
    (readable : letters = ['%'] ∨ ∀ c ∈ letters, c.isAlpha = true) (ended : Ended rest)
    (notNil : sign ++ text ++ letters ≠ []) :
    number (sign ++ text ++ letters ++ rest) =
      .ok ⟨.number (.finite negative rank) (String.ofList letters), sign ++ text ++ letters,
        notNil⟩ := by
  have numeral_eq : numeral (sign ++ text ++ letters ++ rest) = sign ++ text := by
    have either : sign = [] ∨ sign = ['-'] := by
      cases negative with
      | false => exact .inl signed
      | true => exact .inr signed
    simp only [List.append_assoc]
    exact numeral_append either h.unsigned (endsNumeral_append readable ended)
  have value : Binary64.read? (sign ++ text) = some (.finite negative rank) := by
    cases negative with
    | false => rw [signed]; exact h.read?
    | true => rw [signed]; exact h.read?_negative
  have letters_eq : unit ((sign ++ text ++ letters ++ rest).drop (sign ++ text).length) =
      letters := by
    rw [List.append_assoc (sign ++ text), List.drop_left]
    exact unit_append readable ended
  unfold number
  split
  · next none =>
    rw [numeral_eq, value] at none
    cases none
  · next found =>
    rw [numeral_eq, value] at found
    cases found
    simp only [numeral_eq, letters_eq]

/-! ## Lexemes in a line -/

/-- No blank, no line break and no comment starts with `c`, behind which `rest` stands. A slash is
taken for no comment where a blank follows. -/
structure Solid (c : Char) (rest : List Char) : Prop where
  visible : c ∉ [' ', '\t', '\n', '\r']
  uncommented : c = '/' → rest.head? = some ' '

/-- The text starts with this lexeme, where `previous` is the character before it. -/
structure At (previous : Option Char) (text : List Char) (item : Lexeme) : Prop where
  front : ∃ c rest, text = c :: rest ∧ Solid c rest ∧ lexeme previous c rest = .ok item

/-- A lexeme that starts with a character of no blank and no comment. -/
theorem at_of_lexeme {previous : Option Char} {c : Char} {item : Lexeme}
    (solid : c ∉ [' ', '\t', '\n', '\r', '/']) (read : lexeme previous c rest = .ok item) :
    At previous (c :: rest) item := by
  refine ⟨c, rest, rfl, ⟨fun blank => solid ?_, fun slash => absurd ?_ solid⟩, read⟩
  · exact List.mem_append_left ['/'] blank
  · rw [slash]
    decide

theorem at_word {c : Char} {tail : List Char} (previous : Option Char) (first : c ∈ wordStarts)
    (whole : nameTail tail = tail) (ended : Ended rest) :
    At previous (c :: tail ++ rest)
      ⟨.ident (String.ofList (c :: tail)), c :: tail, List.cons_ne_nil _ _⟩ := by
  have solid : c ∉ [' ', '\t', '\n', '\r', '/'] := by
    rcases mem_wordStarts.1 first with rfl | rfl | rfl | rfl <;> decide
  exact at_of_lexeme solid (lexeme_word previous first whole ended)

theorem at_plus (previous : Option Char) : At previous ('+' :: rest) ⟨.plus, ['+'], by simp⟩ :=
  at_of_lexeme (by decide) rfl

theorem at_leftParen (previous : Option Char) :
    At previous ('(' :: rest) ⟨.leftParen, ['('], by simp⟩ :=
  at_of_lexeme (by decide) rfl

theorem at_rightParen (previous : Option Char) :
    At previous (')' :: rest) ⟨.rightParen, [')'], by simp⟩ :=
  at_of_lexeme (by decide) rfl

/-- A hyphen that is not read as the sign of a number or the start of a name is a minus sign. -/
theorem at_minus {previous : Option Char}
    (unsigned : startsNumber rest = true → signAllowed previous = false)
    (unnamed : startsNameAfterHyphen rest = false) :
    At previous ('-' :: rest) ⟨.minus, ['-'], by simp⟩ := by
  refine at_of_lexeme (by decide) ?_
  have hyphen : startsNumber ('-' :: rest) = false := rfl
  have letter : isAlphabetic '-' = false := by decide
  unfold lexeme
  rw [if_neg (by decide), if_neg, if_neg, if_neg (by simp)]
  · rfl
  · simp [letter, unnamed]
  · rintro (starts | ⟨-, starts, allowed⟩)
    · rw [hyphen] at starts
      cases starts
    · rw [unsigned starts] at allowed
      cases allowed

variable {text letters : List Char} {rank : Fin Binary64.rankLimit}

theorem startsNumber_of_isDigit {c : Char} (digit : c.isDigit = true) :
    startsNumber (c :: rest) = true := by
  unfold startsNumber
  split
  · next same => cases same; cases digit
  · next same => cases same; exact digit
  · next none => cases none

/-- A digit behind a hyphen starts no name. -/
theorem startsNameAfterHyphen_of_isDigit {c : Char} (digit : c.isDigit = true) :
    startsNameAfterHyphen (c :: rest) = false := by
  have letter : isAlphabetic c = false := by
    have ascii : c.toNat < 128 := by
      have code : c.toNat = c.val.toNat := rfl
      have high : c.val ≤ '9'.val := of_decide_eq_true (Bool.and_eq_true_iff.1 digit).2
      have := UInt32.le_iff_toNat_le.1 high
      have : '9'.val.toNat < 128 := by decide
      omega
    rw [isAlphabetic, if_pos ascii]
    cases alpha : c.isAlpha with
    | false => rfl
    | true =>
      rw [not_isDigit_of_isAlpha alpha] at digit
      cases digit
  have underscore : c ≠ '_' := ne_of_isDigit digit rfl
  have hyphen : c ≠ '-' := ne_of_isDigit digit rfl
  simp [startsNameAfterHyphen, letter, underscore, hyphen]

/-- A number starts where a decimal does. -/
theorem startsNumber_decimal (h : Binary64.Unsigned text) (more : List Char) :
    startsNumber (text ++ more) = true := by
  cases h with
  | whole some all | around some all =>
    obtain ⟨c, digits, rfl⟩ := List.exists_cons_of_ne_nil some
    exact startsNumber_of_isDigit (all c (.head _))
  | pointed some all =>
    obtain ⟨c, digits, rfl⟩ := List.exists_cons_of_ne_nil some
    exact all c (.head _)

/-- A numeral with its unit. -/
theorem at_number (previous : Option Char) (h : Binary64.Numeral rank text)
    (readable : letters = ['%'] ∨ ∀ c ∈ letters, c.isAlpha = true) (ended : Ended rest)
    (notNil : text ++ letters ≠ []) :
    At previous (text ++ letters ++ rest)
      ⟨.number (.finite false rank) (String.ofList letters), text ++ letters, notNil⟩ := by
  have number := number_append false rfl h readable ended notNil
  obtain ⟨c, tail, rfl, digit⟩ := h.head_isDigit
  refine at_of_lexeme (solid_of_isDigit digit) ?_
  unfold lexeme
  rw [if_neg, if_pos (.inl (startsNumber_of_isDigit digit))]
  · exact number
  · rintro (same | same)
    · exact ne_of_isDigit digit rfl same
    · exact ne_of_isDigit digit rfl same

/-- A numeral with its unit behind a sign. -/
theorem at_negative {previous : Option Char} (allowed : signAllowed previous = true)
    (h : Binary64.Numeral rank text)
    (readable : letters = ['%'] ∨ ∀ c ∈ letters, c.isAlpha = true) (ended : Ended rest) :
    At previous ('-' :: (text ++ letters) ++ rest)
      ⟨.number (.finite true rank) (String.ofList letters), '-' :: (text ++ letters),
        List.cons_ne_nil _ _⟩ := by
  have number := number_append true rfl h readable ended (List.cons_ne_nil _ _)
  have starts := startsNumber_decimal h.unsigned (letters ++ rest)
  rw [← List.append_assoc] at starts
  refine at_of_lexeme (by decide) ?_
  unfold lexeme
  rw [if_neg (by decide), if_pos (.inr ⟨rfl, starts, allowed⟩)]
  exact number

end Lexeme

/-! ## A line -/

/-- The text is cut into lexemes of these kinds, with single blanks between them, up to `rest`. The
character before it is `previous`, and that before `rest` is `last`. -/
inductive Cuts : Option Char → List Char → List Kind → Option Char → List Char → Prop
  | nil {previous : Option Char} {rest : List Char} : Cuts previous rest [] previous rest
  | blank {previous last : Option Char} {text rest : List Char} {kinds : List Kind}
      (more : Cuts (some ' ') text kinds last rest) : Cuts previous (' ' :: text) kinds last rest
  | lexeme {previous last : Option Char} {spelling text rest : List Char} {kind : Kind}
      {kinds : List Kind} {notNil : spelling ≠ []}
      (here : Lexeme.At previous (spelling ++ text) ⟨kind, spelling, notNil⟩)
      (more : Cuts spelling.getLast? text kinds last rest) :
      Cuts previous (spelling ++ text) (kind :: kinds) last rest

/-- A lexeme of one character. -/
theorem Cuts.mark {previous last : Option Char} {c : Char} {text rest : List Char} {kind : Kind}
    {kinds : List Kind} (here : Lexeme.At previous (c :: text) ⟨kind, [c], List.cons_ne_nil _ _⟩)
    (more : Cuts (some c) text kinds last rest) :
    Cuts previous (c :: text) (kind :: kinds) last rest := by
  have spelled : Lexeme.At previous ([c] ++ text) ⟨kind, [c], List.cons_ne_nil _ _⟩ := here
  exact .lexeme spelled more

theorem Cuts.append {previous last last' : Option Char} {text middle rest : List Char}
    {kinds kinds' : List Kind} (h : Cuts previous text kinds last middle)
    (h' : Cuts last middle kinds' last' rest) :
    Cuts previous text (kinds ++ kinds') last' rest := by
  induction h with
  | nil => exact h'
  | blank _ ih => exact .blank (ih h')
  | lexeme here _ ih => exact .lexeme here (ih h')

namespace Scan

/-- The scan stands inside a line that no level is open on, before this text. -/
structure Inside (previous : Option Char) (text : List Char) (scan : Scan) : Prop where
  before : scan.cursor.previous = previous
  here : scan.cursor.rest = text
  begun : scan.lineStart = false
  flat : scan.levels = []

theorem Inside.along {previous : Option Char} {front text : List Char} {scan : Scan}
    (h : Inside previous (front ++ text) scan) (notNil : front ≠ []) (parens : Nat) :
    Inside front.getLast? text
      { scan with cursor := scan.cursor.along front.length, parens := parens } where
  before := by
    show ((scan.cursor.rest.take front.length).getLast?.or _) = _
    rw [h.here, List.take_left]
    cases last : front.getLast? with
    | none => exact absurd (List.getLast?_eq_none_iff.1 last) notNil
    | some c => rfl
  here := by
    show scan.cursor.rest.drop front.length = _
    rw [h.here, List.drop_left]
  begun := h.begun
  flat := h.flat

variable {scan : Scan} {previous last : Option Char} {text rest : List Char} {kinds : List Kind}

/-- A character that is no blank and no line break. -/
theorem visible_spec {c : Char} (visible : c ∉ [' ', '\t', '\n', '\r']) (rest : List Char) :
    isSpace c = false ∧ lineBreak (c :: rest) = 0 := by
  simp only [List.mem_cons, List.not_mem_nil, or_false, not_or] at visible
  obtain ⟨blank, tab, feed, return_⟩ := visible
  refine ⟨by simp [isSpace, blank, tab], ?_⟩
  unfold lineBreak
  split
  · next same => exact absurd (List.cons.inj same).1 return_
  · next same => exact absurd (List.cons.inj same).1 return_
  · next same => exact absurd (List.cons.inj same).1 feed
  · rfl

/-- A lexeme inside a line is cut as a token of its kind. -/
theorem step_lexeme {c : Char} {item : Lexeme} (begun : scan.lineStart = false)
    (solid : Lexeme.Solid c rest) (read : lexeme scan.cursor.previous c rest = .ok item) :
    scan.step c rest = .ok ([scan.cursor.token item.kind item.spelling.length],
      { scan with
        cursor := scan.cursor.along item.spelling.length
        parens := parensAfter scan.parens item.kind }) := by
  obtain ⟨blank, unbroken⟩ := visible_spec solid.visible rest
  rw [step_lexeme_eq begun blank unbroken, read]
  rintro ⟨more, here | here⟩ <;> cases here <;> cases solid.uncommented rfl

/-- The tokens of a run from inside a line that is cut to its end. -/
theorem run_of_cuts (h : Cuts previous text kinds last rest) (ended : rest = []) (scan : Scan)
    (inside : Inside previous text scan) (cut : List Token) :
    ∃ tokens final, scan.run cut = .ok (cut.reverse ++ (tokens ++ [final])) ∧
      tokens.map (·.kind) = kinds ∧ final.kind = .endOfInput := by
  induction h generalizing scan cut with
  | nil =>
    refine ⟨[], scan.cursor.token .endOfInput 0, ?_, rfl, rfl⟩
    rw [run_done cut (inside.here.trans ended), closing, inside.flat]
    rfl
  | @blank previous last text rest kinds more ih =>
    rw [run_step cut inside.here (step_space inside.begun rfl)]
    have spelled : Inside previous ([' '] ++ text) scan := inside
    exact ih ended _ (spelled.along (List.cons_ne_nil _ _) scan.parens) cut
  | @lexeme previous last spelling text rest kind kinds notNil front more ih =>
    obtain ⟨c, tail, same, solid, read⟩ := front.front
    rw [← inside.before] at read
    rw [run_step cut (inside.here.trans same) (step_lexeme inside.begun solid read)]
    let token := scan.cursor.token kind spelling.length
    obtain ⟨tokens, final, ran, kinds_eq, ends⟩ := ih ended _
      (inside.along notNil (parensAfter scan.parens kind)) (token :: cut)
    refine ⟨token :: tokens, final, ?_, ?_, ends⟩
    · rw [List.reverse_singleton, List.singleton_append, ran]
      simp [token]
    · rw [List.map_cons, kinds_eq]
      rfl

/-- A line without indentation starts with no token. -/
theorem step_start {c : Char} (rest : List Char) (solid : c ∉ [' ', '\t', '\n', '\r', '/']) :
    ∃ next, (Scan.start (c :: rest)).step c rest = .ok ([], next) ∧
      Inside none (c :: rest) next := by
  obtain ⟨blank, unbroken⟩ := visible_spec
    (fun h => solid (List.mem_append_left ['/'] h)) rest
  have none : spaces (c :: rest) = 0 := by simp [spaces, blank]
  have start : (Cursor.start (c :: rest)).rest = c :: rest := rfl
  have indented : (Cursor.start (c :: rest)).indentation =
      .ok ((Cursor.start (c :: rest)).along 0) := by
    have other : c ≠ '/' := by
      rintro rfl
      exact solid (by decide)
    have here : ((Cursor.start (c :: rest)).along 0).rest = c :: rest := rfl
    unfold Cursor.indentation
    rw [start, none]
    simp only [here]
    split
    · next same => exact absurd (List.cons.inj same).1 other
    · next same => exact absurd (List.cons.inj same).1 other
    · rfl
  refine ⟨⟨(Cursor.start (c :: rest)).along 0, [], 0, false⟩, ?_, rfl, rfl, rfl, rfl⟩
  have started : (Scan.start (c :: rest)).cursor = Cursor.start (c :: rest) := rfl
  unfold step
  rw [started, indented]
  show (Scan.start (c :: rest)).startLine _ = _
  have flat : reindent [] (spaces (Cursor.start (c :: rest)).rest) = some ([], []) := by
    rw [start, none]
    rfl
  unfold startLine
  rw [if_neg]
  · simp only [Scan.start, flat]
    rfl
  · rintro (ended | broken)
    · cases ended
    · exact broken unbroken

end Scan

/-- A line without indentation that is cut to its end has tokens of these kinds, and then the end of
the input. -/
theorem tokenize_of_cuts {c : Char} {text : List Char} {kinds : List Kind} {last : Option Char}
    (h : Cuts none (c :: text) kinds last []) (solid : c ∉ [' ', '\t', '\n', '\r', '/']) :
    ∃ tokens final, tokenize (String.ofList (c :: text)) = .ok (tokens ++ [final]) ∧
      tokens.map (·.kind) = kinds ∧ final.kind = .endOfInput := by
  obtain ⟨next, step, inside⟩ := Scan.step_start text solid
  unfold tokenize
  rw [String.toList_ofList, Scan.run_step [] rfl step]
  exact Scan.run_of_cuts h rfl next inside []

end StylusToScss
