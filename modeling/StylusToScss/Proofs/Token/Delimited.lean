import Mathlib.Data.List.Find
import StylusToScss.Proofs.Token.Lossless

/-!
# Lexemes and what stands behind them

A lexeme is read from the front of all the text that is left. How much of that text decides? A line
break, a blank, a slash, a semicolon and a colon continue no lexeme but a string and an address: up
to the first of them (`Delimits`) the text decides alone which lexeme stands at its front
(`lexeme_append`). A string or an address that ends before such a place is also read from what
stands before it (`lexeme_replace`).
-/

namespace StylusToScss

open Text

/-- The characters that continue no name, number, word or mark. -/
def delimiters : List Char := ['\n', '\r', ' ', '\t', '/', ';', ':']

/-- The text is empty or starts with a delimiter. -/
def Delimits (more : List Char) : Prop := ∀ c ∈ more.head?, c ∈ delimiters

theorem AtLineEnd.delimits {more : List Char} (h : AtLineEnd more) : Delimits more := by
  intro c hc
  rcases h c hc with rfl | rfl <;> decide

variable {front more : List Char}

/-- What a delimiter is not. -/
structure Inert (c : Char) : Prop where
  alphanumeric : isAlphanumeric c = false
  alphabetic : isAlphabetic c = false
  digit : c.isDigit = false
  letter : c.isAlpha = false
  mark : c ∉ ['_', '$', '-', '.', '(', '%']
  fixed : ∀ entry ∈ Kind.fixedKinds, c ∉ entry.1.tail

theorem inert_of_mem {c : Char} (h : c ∈ delimiters) : Inert c := by
  have cases_ : c = '\n' ∨ c = '\r' ∨ c = ' ' ∨ c = '\t' ∨ c = '/' ∨ c = ';' ∨ c = ':' := by
    simpa [delimiters] using h
  rcases cases_ with rfl | rfl | rfl | rfl | rfl | rfl | rfl <;>
    exact ⟨by decide, by decide, by decide, by decide, by decide, by decide⟩

theorem Inert.ne {c d : Char} (h : Inert c) (mark : d ∈ ['_', '$', '-', '.', '(', '%']) :
    c ≠ d := by
  rintro rfl
  exact h.mark mark

/-- A text that delimits is empty, or starts with a character that continues nothing. -/
theorem Delimits.cases (h : Delimits more) : more = [] ∨ ∃ c rest, more = c :: rest ∧ Inert c := by
  cases more with
  | nil => exact .inl rfl
  | cons c rest => exact .inr ⟨c, rest, rfl, inert_of_mem (h c rfl)⟩

theorem takeWhile_append_of_delimits {p : Char → Bool} (front : List Char) (h : Delimits more)
    (stops : ∀ c, Inert c → p c = false) : (front ++ more).takeWhile p = front.takeWhile p := by
  have none : more.takeWhile p = [] := by
    obtain rfl | ⟨c, rest, rfl, inert⟩ := h.cases
    · rfl
    · simp [stops c inert]
  rw [List.takeWhile_append, none, List.append_nil]
  split
  · next whole => exact ((List.takeWhile_prefix p).eq_of_length whole).symm
  · rfl

namespace Lexeme

/-! ## Names and words -/

theorem continuesName_append (h : Delimits more) :
    continuesName (front ++ more) = continuesName front := by
  cases front with
  | cons c front => rfl
  | nil =>
    obtain rfl | ⟨c, rest, rfl, inert⟩ := h.cases
    · rfl
    · simp [continuesName, inert.alphanumeric, inert.ne]

theorem nameTail_append_of_delimits (h : Delimits more) :
    nameTail (front ++ more) = nameTail front := by
  induction front with
  | nil =>
    obtain rfl | ⟨c, rest, rfl, inert⟩ := h.cases
    · rfl
    · simp [nameTail, inert.alphanumeric, inert.ne]
  | cons c front ih => rw [List.cons_append, nameTail, nameTail, continuesName_append h, ih]

theorem startsNameAfterHyphen_append (h : Delimits more) :
    startsNameAfterHyphen (front ++ more) = startsNameAfterHyphen front := by
  cases front with
  | cons c front => rfl
  | nil =>
    obtain rfl | ⟨c, rest, rfl, inert⟩ := h.cases
    · rfl
    · simp [startsNameAfterHyphen, inert.alphabetic, inert.ne]

theorem markedWord_append (h : Delimits more) : markedWord (front ++ more) = markedWord front :=
  takeWhile_append_of_delimits front h fun c inert => by simp [inert.alphanumeric, inert.ne]

/-- What stands behind a name in the text stands behind it in a longer text. -/
theorem drop_nameTail_append (h : Delimits more) :
    (front ++ more).drop (nameTail (front ++ more)).length =
      front.drop (nameTail front).length ++ more := by
  rw [nameTail_append_of_delimits h,
    List.drop_append_of_le_length (nameTail_isPrefix front).length_le]

theorem head?_append_of_delimits (h : Delimits more) :
    (front ++ more).head? = some '(' ↔ front.head? = some '(' := by
  cases front with
  | cons c front => rfl
  | nil =>
    obtain rfl | ⟨c, rest, rfl, inert⟩ := h.cases
    · rfl
    · simp [inert.ne]

/-! ## Numbers -/

theorem startsNumber_append (h : Delimits more) :
    startsNumber (front ++ more) = startsNumber front := by
  match front with
  | [] =>
    obtain rfl | ⟨c, rest, rfl, inert⟩ := h.cases
    · rfl
    · simp [startsNumber, inert.digit, inert.ne]
  | [d] =>
    obtain rfl | ⟨c, rest, rfl, inert⟩ := h.cases
    · rfl
    · by_cases point : d = '.'
      · subst point
        exact inert.digit
      · simp [startsNumber, point]
  | d :: e :: front =>
    by_cases point : d = '.'
    · subst point
      rfl
    · simp [startsNumber, point]

theorem fraction_append (h : Delimits more) : fraction (front ++ more) = fraction front := by
  match front with
  | [] =>
    obtain rfl | ⟨c, rest, rfl, inert⟩ := h.cases
    · rfl
    · simp [fraction, inert.ne]
  | [d] =>
    obtain rfl | ⟨c, rest, rfl, inert⟩ := h.cases
    · rfl
    · by_cases point : d = '.'
      · subst point
        simp [fraction, inert.digit]
      · simp [fraction, point]
  | d :: e :: front =>
    by_cases point : d = '.'
    · subst point
      have digits := takeWhile_append_of_delimits (p := Char.isDigit) front h
        fun c inert => inert.digit
      simp [fraction, digits]
    · simp [fraction, point]

theorem unit_append_of_delimits (h : Delimits more) : unit (front ++ more) = unit front := by
  have letters := takeWhile_append_of_delimits (p := Char.isAlpha) front h
    fun c inert => inert.letter
  cases front with
  | nil =>
    obtain rfl | ⟨c, rest, rfl, inert⟩ := h.cases
    · rfl
    · simp [unit, inert.ne, inert.letter]
  | cons d front =>
    by_cases percent : d = '%'
    · subst percent
      rfl
    · simpa [unit, percent] using letters

theorem numeral_append_of_delimits (h : Delimits more) :
    numeral (front ++ more) = numeral front := by
  have sign := takeWhile_append_of_delimits (p := (· == '-')) front h
    fun c inert => by simp [inert.ne]
  have bound : ((front.takeWhile (· == '-')).take 1).length ≤ front.length :=
    ((List.take_prefix _ _).trans (List.takeWhile_prefix _)).length_le
  unfold numeral
  simp only [sign]
  generalize (front.takeWhile (· == '-')).take 1 = sign at bound ⊢
  have whole := takeWhile_append_of_delimits (p := Char.isDigit) (front.drop sign.length) h
    fun c inert => inert.digit
  rw [List.drop_append_of_le_length bound, whole]
  have digits := (List.takeWhile_prefix Char.isDigit (l := front.drop sign.length)).length_le
  rw [List.length_drop] at digits
  rw [List.drop_append_of_le_length (by omega), fraction_append h]

/-- A number depends on the text through its numeral and its unit. -/
theorem number_congr {text text' : List Char} (same : numeral text = numeral text')
    (units : unit (text.drop (numeral text).length) = unit (text'.drop (numeral text').length)) :
    number text = number text' := by
  unfold number
  split
  · next none =>
    split
    · rw [same]
    · next some =>
      rw [same, some] at none
      cases none
  · next value here =>
    split
    · next none =>
      rw [same, none] at here
      cases here
    · next value' here' =>
      rw [same, here'] at here
      cases here
      simp only [same] at units ⊢
      simp only [units]

theorem length_numeral_le (text : List Char) : (numeral text).length ≤ text.length := by
  have starts := (numeral_isPrefix text).length_le
  exact starts

theorem number_append_of_delimits (h : Delimits more) : number (front ++ more) = number front := by
  refine number_congr (numeral_append_of_delimits h) ?_
  rw [numeral_append_of_delimits h, List.drop_append_of_le_length (length_numeral_le front),
    unit_append_of_delimits h]

/-! ## Marks -/

theorem isPrefixOf_append {text : List Char} (h : Delimits more) (solid : ∀ c, Inert c → c ∉ text) :
    text.isPrefixOf (front ++ more) = text.isPrefixOf front := by
  induction text generalizing front with
  | nil => simp
  | cons d text ih =>
    cases front with
    | nil =>
      obtain rfl | ⟨c, rest, rfl, inert⟩ := h.cases
      · rfl
      · have other : d ≠ c := by
          rintro rfl
          exact solid d inert (.head _)
        rw [List.nil_append, List.isPrefixOf_cons_cons, beq_eq_false_iff_ne.2 other]
        rfl
    | cons e front =>
      rw [List.cons_append, List.isPrefixOf_cons_cons, List.isPrefixOf_cons_cons,
        ih fun c inert mem => solid c inert (.tail _ mem)]

theorem fixed?_append (c : Char) (h : Delimits more) :
    fixed? (c :: (front ++ more)) = fixed? (c :: front) := by
  unfold fixed?
  refine List.find?_congr fun entry he => ?_
  obtain ⟨spelling, kind⟩ := entry
  cases spelling with
  | nil => simp
  | cons d tail =>
    have solid : ∀ c, Inert c → c ∉ tail := fun c inert => inert.fixed _ he
    rw [List.isPrefixOf_cons_cons, List.isPrefixOf_cons_cons, isPrefixOf_append h solid]


/-! ## Addresses -/

/-- The name that starts with `c` is `url`, and an address follows. -/
def IsAddress (c : Char) (rest : List Char) : Prop :=
  c :: nameTail rest = ['u', 'r', 'l'] ∧ (rest.drop (nameTail rest).length).head? = some '('

theorem isAddress_append {c : Char} (h : Delimits more) :
    IsAddress c (front ++ more) ↔ IsAddress c front := by
  unfold IsAddress
  rw [drop_nameTail_append h, nameTail_append_of_delimits h, head?_append_of_delimits h]

theorem name_append {c : Char} (h : Delimits more) (other : ¬ IsAddress c front) :
    name c (front ++ more) = name c front := by
  have other' : ¬ IsAddress c (front ++ more) := mt (isAddress_append h).1 other
  unfold IsAddress at other other'
  unfold name
  simp only
  rw [if_neg other, if_neg other']
  simp only [nameTail_append_of_delimits h]

/-- An address that ends before a place is closed, whatever stands there. -/
theorem address_replace {inner : List Char} (more' : List Char)
    (closed : address (front ++ more) = (inner, true)) (inside : inner.length < front.length) :
    address (front ++ more') = (inner, true) := by
  have whole : inner ++ [')'] <+: front := by
    refine List.prefix_of_prefix_length_le (address_isPrefix closed) (List.prefix_append _ _) ?_
    simpa using Nat.succ_le_of_lt inside
  have all : ∀ c ∈ inner, (c != ')' && c != '\n' && c != '\r') = true := by
    intro c hc
    have hc : c ∈ (address (front ++ more)).1 := closed ▸ hc
    exact List.mem_takeWhile_imp (p := fun c => c != ')' && c != '\n' && c != '\r') hc
  obtain ⟨rest, rfl⟩ := whole
  have taken : (inner ++ [')'] ++ rest ++ more').takeWhile
      (fun c => c != ')' && c != '\n' && c != '\r') = inner := by
    rw [List.append_assoc, List.append_assoc, List.takeWhile_append_of_pos all]
    simp
  unfold address
  simp only [taken]
  simp

/-- An address stands on one line. -/
theorem address_append_of_atLineEnd (h : AtLineEnd more) :
    address (front ++ more) = address front := by
  have none : more.takeWhile (fun c => c != ')' && c != '\n' && c != '\r') = [] := by
    cases more with
    | nil => rfl
    | cons c rest => rcases h c rfl with rfl | rfl <;> rfl
  have inner : (front ++ more).takeWhile (fun c => c != ')' && c != '\n' && c != '\r') =
      front.takeWhile fun c => c != ')' && c != '\n' && c != '\r' := by
    rw [List.takeWhile_append, none, List.append_nil]
    split
    · next whole => exact ((List.takeWhile_prefix _).eq_of_length whole).symm
    · rfl
  have le := (List.takeWhile_prefix (l := front)
    fun c => c != ')' && c != '\n' && c != '\r').length_le
  have other : (more.head? == some ')') = false := by
    cases more with
    | nil => rfl
    | cons c rest => rcases h c rfl with rfl | rfl <;> rfl
  unfold address
  simp only [inner, List.drop_append_of_le_length le, List.head?_append]
  cases front.drop _ with
  | nil => simpa using other
  | cons c rest => rfl

/-- The name `url` and its address are a lexeme. -/
theorem lexeme_of_isAddress {previous : Option Char} {c : Char} {rest : List Char}
    (h : IsAddress c rest) : lexeme previous c rest = name c rest := by
  obtain ⟨rfl, -⟩ := List.cons.inj h.1
  have letter : isAlphabetic 'u' = true := by decide
  have digit : startsNumber ('u' :: rest) = false := by
    unfold startsNumber
    split
    · next same => cases same
    · next same =>
      cases same
      rfl
    · rfl
  unfold lexeme
  rw [if_neg (by decide), if_neg (by simp [digit]), if_pos (.inl letter)]

theorem name_replace {c : Char} {more' : List Char} {item : Lexeme} (h : Delimits more)
    (h' : Delimits more') (isAddress : IsAddress c front)
    (read : name c (front ++ more) = .ok item) (inside : item.spelling.length ≤ front.length + 1) :
    name c (front ++ more') = .ok item := by
  have here := (isAddress_append h).2 isAddress
  have here' := (isAddress_append h').2 isAddress
  unfold IsAddress at here here'
  unfold name at read ⊢
  simp only at read ⊢
  rw [if_pos here, drop_nameTail_append h] at read
  rw [if_pos here', drop_nameTail_append h']
  simp only [nameTail_append_of_delimits h] at read
  simp only [nameTail_append_of_delimits h']
  have tail := (nameTail_isPrefix front).length_le
  split at read
  · next inner closed =>
    cases read
    simp only [List.length_append, List.length_cons, List.length_nil] at inside
    rw [address_replace more' closed (by rw [List.length_drop]; omega)]
  · cases read

/-! ## Strings -/

section
variable {quote c d : Char} {rest : List Char}

theorem stringValue_quote : stringValue quote (quote :: rest) = .ok [] := by
  unfold stringValue
  exact if_pos rfl

theorem stringValue_escape (other : '\\' ≠ quote) : stringValue quote ('\\' :: d :: rest) =
    (stringValue quote rest).map fun value => '\\' :: d :: value := by
  rw [stringValue.eq_def]
  exact (if_neg other).trans (if_pos rfl)

theorem stringValue_break (other : c ≠ quote) (breaks : c = '\n' ∨ c = '\r') :
    stringValue quote (c :: rest) = .error .unterminatedString := by
  have escape : c ≠ '\\' := by
    rintro rfl
    rcases breaks with breaks | breaks <;> cases breaks
  rw [stringValue.eq_def]
  exact (if_neg other).trans ((if_neg escape).trans (if_pos breaks))

theorem stringValue_char (other : c ≠ quote) (escape : c ≠ '\\')
    (solid : ¬ (c = '\n' ∨ c = '\r')) :
    stringValue quote (c :: rest) = (stringValue quote rest).map (c :: ·) := by
  rw [stringValue.eq_def]
  exact (if_neg other).trans ((if_neg escape).trans (if_neg solid))

end

/-- The value of a string and its closing quote are read as that value, whatever stands behind. -/
theorem stringValue_closed {quote : Char} {text value : List Char}
    (read : stringValue quote text = .ok value) (more : List Char) :
    stringValue quote (value ++ quote :: more) = .ok value := by
  fun_induction stringValue quote text generalizing value with
  | case1 | case3 | case5 => cases read
  | case2 rest =>
    cases read
    exact stringValue_quote
  | case4 d rest other ih =>
    obtain ⟨inner, hi, rfl⟩ := map_eq_ok_iff.1 read
    rw [List.cons_append, List.cons_append, stringValue_escape other, ih hi]
    rfl
  | case6 c rest other escape solid ih =>
    obtain ⟨inner, hi, rfl⟩ := map_eq_ok_iff.1 read
    rw [List.cons_append, stringValue_char other escape solid, ih hi]
    rfl

/-- A string that ends before a place is closed, whatever stands there. -/
theorem string_replace {quote : Char} {item : Lexeme} (more' : List Char)
    (read : string quote (front ++ more) = .ok item)
    (inside : item.spelling.length ≤ front.length + 1) :
    string quote (front ++ more') = .ok item := by
  unfold string at read ⊢
  split at read
  · next value hv =>
    cases read
    have whole : value ++ [quote] <+: front := by
      refine List.prefix_of_prefix_length_le (stringValue_isPrefix hv) (List.prefix_append _ _) ?_
      simpa using inside
    obtain ⟨rest, rfl⟩ := whole
    rw [List.append_assoc, List.append_assoc, List.singleton_append, stringValue_closed hv]
  · cases read
  · cases read

end Lexeme

open Lexeme in
/-- A lexeme that is no string and no address is decided by what stands before a delimiter. -/
theorem lexeme_append {previous : Option Char} {c : Char} (h : Delimits more)
    (plain : ¬ (c = '"' ∨ c = '\'')) (other : ¬ IsAddress c front) :
    lexeme previous c (front ++ more) = lexeme previous c front := by
  have starts : startsNumber (c :: (front ++ more)) = startsNumber (c :: front) :=
    @startsNumber_append (c :: front) more h
  have number : number (c :: (front ++ more)) = number (c :: front) :=
    @number_append_of_delimits (c :: front) more h
  unfold lexeme
  rw [if_neg plain, if_neg plain, starts, number, startsNumber_append h,
    startsNameAfterHyphen_append h, name_append h other]
  simp only [markedWord_append h]
  refine ite_congr rfl (fun _ => rfl) fun _ => ?_
  refine ite_congr rfl (fun _ => rfl) fun _ => ?_
  refine ite_congr rfl (fun _ => rfl) fun _ => ?_
  split
  · next fixed =>
    rw [fixed?_append c h] at fixed
    split
    · next fixed' =>
      rw [fixed'] at fixed
      cases fixed
      rfl
    · next fixed' =>
      rw [fixed'] at fixed
      cases fixed
  · next fixed =>
    rw [fixed?_append c h] at fixed
    symm
    split
    · next fixed' =>
      rw [fixed'] at fixed
      cases fixed
    · rfl

open Lexeme in
/-- A lexeme that is no string is decided by what stands on its line. -/
theorem lexeme_append_of_atLineEnd {previous : Option Char} {c : Char} (h : AtLineEnd more)
    (plain : ¬ (c = '"' ∨ c = '\'')) :
    lexeme previous c (front ++ more) = lexeme previous c front := by
  have delimits := h.delimits
  by_cases isAddress : IsAddress c front
  · have here := (isAddress_append delimits).2 isAddress
    rw [lexeme_of_isAddress here, lexeme_of_isAddress isAddress]
    unfold IsAddress at here isAddress
    unfold name
    simp only
    rw [if_pos here, if_pos isAddress, drop_nameTail_append delimits,
      address_append_of_atLineEnd h]
    simp only [nameTail_append_of_delimits delimits]
  · exact lexeme_append delimits plain isAddress

open Lexeme in
/-- A lexeme that ends before a place where the text delimits is read where another text that
delimits stands there. -/
theorem lexeme_replace {previous : Option Char} {c : Char} {more' : List Char} {item : Lexeme}
    (h : Delimits more) (h' : Delimits more') (read : lexeme previous c (front ++ more) = .ok item)
    (inside : item.spelling.length ≤ front.length + 1) :
    lexeme previous c (front ++ more') = .ok item := by
  by_cases isQuote : c = '"' ∨ c = '\''
  · unfold lexeme at read ⊢
    rw [if_pos isQuote] at read ⊢
    exact string_replace more' read inside
  · by_cases isAddress : IsAddress c front
    · rw [lexeme_of_isAddress ((isAddress_append h).2 isAddress)] at read
      rw [lexeme_of_isAddress ((isAddress_append h').2 isAddress)]
      exact name_replace h h' isAddress read inside
    · rw [lexeme_append h isQuote isAddress] at read
      rw [lexeme_append h' isQuote isAddress, read]

end StylusToScss
