import StylusToScss.Proofs.Token.Inserted
import StylusToScss.Proofs.Token.Numerals

/-!
# Tokens on their own

What stands around a token decides where it starts and ends, but not what it is: cut by itself, the
text of a token is that token again. There is one exception. A hyphen belongs to a name where a
character of a name follows, and another hyphen is taken for one even where it belongs to no name.
So the name of `a--` is `a-`, which by itself is the name `a` and a minus sign.

* `nameTail_nameTail`: a name is cut again up to a hyphen at its end.
* `lexeme_alone`: what a lexeme is read as from its own spelling.
* `tokenize_alone`: the slice of a token is that token again unless it is a name that ends with a
  hyphen, and what it is then.
-/

namespace StylusToScss

open Text

/-- A name that ends with a hyphen. -/
def Kind.EndsWithHyphen (kind : Kind) : Prop :=
  ∃ name, kind = .ident name ∧ name.toList.getLast? = some '-'

namespace Lexeme

variable {previous : Option Char} {c : Char} {rest tail text : List Char} {item : Lexeme}

/-! ## Names -/

/-- A name starts here: with a letter, an underscore or a dollar sign, or with a hyphen and one of
these or another hyphen. -/
def TakesName (c : Char) (rest : List Char) : Prop :=
  isAlphabetic c = true ∨ c = '_' ∨ c = '$' ∨ (c = '-' ∧ startsNameAfterHyphen rest = true)

/-- Where a name starts, nothing else does, whatever stands before. -/
theorem lexeme_of_takesName (first : TakesName c tail) :
    lexeme previous c tail = name c tail := by
  unfold TakesName at first
  have not_of {d : Char} (other : isAlphabetic d = false)
      (mark : d ∉ ['_', '$', '-']) : c ≠ d := by
    rintro rfl
    simp only [List.mem_cons, List.not_mem_nil, or_false, not_or] at mark
    simp [other, mark] at first
  have digitless {d : Char} (more : List Char)
      (h : startsNameAfterHyphen (d :: more) = true) : d.isDigit = false := by
    cases digit : d.isDigit with
    | false => rfl
    | true =>
      rw [startsNameAfterHyphen_of_isDigit digit] at h
      cases h
  have letter : c.isDigit = false := by
    rcases first with alphabetic | rfl | rfl | ⟨rfl, -⟩
    · exact digitless [] (by simp [startsNameAfterHyphen, alphabetic])
    · rfl
    · rfl
    · rfl
  have unsigned : ¬ (c = '-' ∧ startsNumber tail = true ∧ signAllowed previous = true) := by
    rintro ⟨rfl, starts, -⟩
    have named : startsNameAfterHyphen tail = true := by simpa [isAlphabetic] using first
    rcases startsNumber_cases starts with ⟨d, more, rfl, digit⟩ | ⟨d, more, rfl, -⟩
    · rw [digitless more named] at digit
      cases digit
    · cases named
  have unnumbered : ¬ TakesNumber previous c tail := by
    rintro (starts | signed)
    · rcases startsNumber_cases starts with ⟨d, more, same, digit⟩ | ⟨d, more, same, -⟩
      · cases same
        rw [letter] at digit
        cases digit
      · exact not_of (by decide) (by decide) (List.cons.inj same).1
    · exact unsigned signed
  have unquoted : ¬ (c = '"' ∨ c = '\'') := by
    rintro (same | same)
    · exact not_of (by decide) (by decide) same
    · exact not_of (by decide) (by decide) same
  unfold lexeme
  exact (if_neg unquoted).trans ((if_neg unnumbered).trans (if_pos first))

/-- What follows the first character of a name starts as the text behind that character does. -/
theorem exists_cons_nameTail {d : Char} {more : List Char} (h : nameTail rest = d :: more) :
    ∃ rest', rest = d :: rest' := by
  obtain ⟨behind, split⟩ := nameTail_isPrefix rest
  rw [h] at split
  exact ⟨_, split.symm⟩

theorem continuesName_nameTail (some : nameTail rest ≠ []) :
    continuesName (nameTail rest) = continuesName rest := by
  obtain ⟨d, more, tail⟩ := List.exists_cons_of_ne_nil some
  obtain ⟨rest', rfl⟩ := exists_cons_nameTail tail
  rw [tail]
  rfl

theorem startsNameAfterHyphen_nameTail (some : nameTail rest ≠ []) :
    startsNameAfterHyphen (nameTail rest) = startsNameAfterHyphen rest := by
  obtain ⟨d, more, tail⟩ := List.exists_cons_of_ne_nil some
  obtain ⟨rest', rfl⟩ := exists_cons_nameTail tail
  rw [tail]
  rfl

theorem TakesName.ne_slash (h : TakesName c rest) : c ≠ '/' := by
  rintro rfl
  simp [TakesName, isAlphabetic] at h

/-- A name starts as it does where nothing stands behind it, unless it is a hyphen alone. -/
theorem TakesName.nameTail (h : TakesName c rest) (bare : ¬ (c = '-' ∧ nameTail rest = [])) :
    TakesName c (nameTail rest) := by
  refine h.imp_right (.imp_right (.imp_right fun ⟨hyphen, named⟩ => ⟨hyphen, ?_⟩))
  rwa [startsNameAfterHyphen_nameTail fun none => bare ⟨hyphen, none⟩]

/-- The rest of a name is the rest of a name again, up to a hyphen at its end, which nothing
follows there. -/
theorem nameTail_nameTail (text : List Char) :
    (nameTail text).getLast? ≠ some '-' ∧ nameTail (nameTail text) = nameTail text ∨
      ∃ front, nameTail text = front ++ ['-'] ∧ nameTail (nameTail text) = front := by
  fun_induction nameTail text with
  | case1 => exact .inl ⟨by simp, rfl⟩
  | case2 c rest continues ih =>
    by_cases none : nameTail rest = []
    · rw [none]
      by_cases hyphen : c = '-'
      · subst hyphen
        exact .inr ⟨[], rfl, rfl⟩
      · refine .inl ⟨by simpa using hyphen, ?_⟩
        have letter : (isAlphanumeric c || c == '_' || c == '$') = true := by
          simpa [hyphen] using continues
        simp [nameTail, letter]
    · have same : nameTail (c :: nameTail rest) = c :: nameTail (nameTail rest) := by
        rw [nameTail, continuesName_nameTail none, if_pos continues]
      rcases ih with ⟨unended, whole⟩ | ⟨front, ended, cut⟩
      · refine .inl ⟨?_, by rw [same, whole]⟩
        rwa [List.getLast?_cons_of_ne_nil none]
      · exact .inr ⟨c :: front, by rw [ended, List.cons_append], by rw [same, cut]⟩
  | case3 => exact .inl ⟨by simp, rfl⟩

/-- A hyphen that belongs to a name only for what follows it, and that does not belong to it, is
followed by a hyphen. -/
theorem head?_of_continuesName (continues : continuesName rest = true)
    (none : nameTail rest = []) : rest.head? = some '-' := by
  cases rest with
  | nil => cases continues
  | cons d more =>
    rw [nameTail] at none
    split at none
    · cases none
    · next ends =>
      have hyphen : d = '-' := by
        simp only [Bool.or_eq_true, not_or] at ends
        simpa [continuesName, ends.1] using continues
      rw [hyphen]
      rfl

/-- Behind a name that ends with a hyphen stands another one. -/
theorem head?_behind_nameTail {front : List Char} (ended : nameTail text = front ++ ['-']) :
    (text.drop (nameTail text).length).head? = some '-' := by
  induction text generalizing front with
  | nil => exact absurd ended (by simp [nameTail])
  | cons c rest ih =>
    rw [nameTail] at ended ⊢
    split at ended
    · next continues =>
      rw [if_pos continues, List.length_cons, List.drop_succ_cons]
      cases front with
      | nil =>
        obtain ⟨rfl, none⟩ := List.cons.inj ended
        have hyphen : continuesName rest = true := by simpa [isAlphanumeric] using continues
        rw [none]
        exact head?_of_continuesName hyphen none
      | cons d front => exact ih (List.cons.inj ended).2
    · exact absurd ended (by simp)

theorem continuesName_of_startsNameAfterHyphen (h : startsNameAfterHyphen text = true) :
    continuesName text = true := by
  cases text with
  | nil => cases h
  | cons d more =>
    simp only [startsNameAfterHyphen, continuesName, Bool.or_eq_true] at h ⊢
    rcases h with (letter | underscore) | hyphen
    · exact .inl (.inl (.inl (isAlphanumeric_of_isAlphabetic letter)))
    · exact .inl (.inl (.inr underscore))
    · exact .inr hyphen

/-! ## Lexemes -/

/-- The lexeme is read from its own spelling. -/
def ReadsAlone (item : Lexeme) : Prop :=
  ∃ c tail, item.spelling = c :: tail ∧ lexeme none c tail = .ok item

/-- A name that ends with a hyphen, which is followed by another one. -/
structure EndsWithHyphen (c : Char) (rest : List Char) (item : Lexeme) : Prop where
  spelling : item.spelling = c :: nameTail rest
  kind : item.kind = .ident (String.ofList item.spelling)
  ended : item.spelling.getLast? = some '-'
  first : TakesName c rest
  behind : ((c :: rest).drop item.spelling.length).head? = some '-'

theorem string_alone {quote : Char} (isQuote : quote = '"' ∨ quote = '\'')
    (read : string quote rest = .ok item) : ReadsAlone item := by
  unfold string at read
  split at read
  · next value hv =>
    cases read
    refine ⟨quote, value ++ [quote], rfl, ?_⟩
    unfold lexeme
    rw [if_pos isQuote]
    unfold string
    rw [stringValue_closed hv []]
  · cases read
  · cases read

/-- The unit of a number is a percent sign or letters. -/
theorem unit_readable (text : List Char) :
    unit text = ['%'] ∨ ∀ c ∈ unit text, c.isAlpha = true := by
  unfold unit
  split
  · exact .inl rfl
  · exact .inr fun c hc => List.mem_takeWhile_imp hc

theorem numeral_signed {more : List Char} (signed : Binary64.Signed text)
    (ended : EndsNumeral more) : numeral (text ++ more) = text := by
  cases signed with
  | plain unsigned => exact numeral_append (.inl rfl) unsigned ended
  | negative unsigned => exact numeral_append (.inr rfl) unsigned ended

theorem takesNumber_signed (signed : Binary64.Signed text) (more : List Char) :
    ∃ c tail, text ++ more = c :: tail ∧ TakesNumber none c tail := by
  cases signed with
  | plain unsigned =>
    have starts := startsNumber_decimal unsigned more
    obtain ⟨c, digits, rfl, -⟩ := unsigned.head
    exact ⟨c, digits ++ more, rfl, .inl starts⟩
  | @negative digits unsigned =>
    exact ⟨'-', digits ++ more, rfl, .inr ⟨rfl, startsNumber_decimal unsigned more, rfl⟩⟩

theorem number_alone (takes : TakesNumber previous c rest)
    (read : number (c :: rest) = .ok item) : ReadsAlone item := by
  have signed := signed_numeral takes
  have readable := unit_readable ((c :: rest).drop (numeral (c :: rest)).length)
  have spelling : item.spelling =
      numeral (c :: rest) ++ unit ((c :: rest).drop (numeral (c :: rest)).length) := by
    unfold number at read
    split at read
    · cases read
    · cases read
      rfl
  generalize letters_eq : unit ((c :: rest).drop (numeral (c :: rest)).length) = letters
    at readable spelling
  have ended : EndsNumeral letters := by simpa using endsNumeral_append readable ended_nil
  have units : unit letters = letters := by simpa using unit_append readable ended_nil
  have same := numeral_signed signed ended
  have again : number (numeral (c :: rest) ++ letters) = number (c :: rest) := by
    refine number_congr same ?_
    rw [same, List.drop_left, units, letters_eq]
  obtain ⟨c', tail, split, takes'⟩ := takesNumber_signed signed letters
  refine ⟨c', tail, spelling.trans split, ?_⟩
  rw [lexeme_of_takesNumber takes', ← split, again, read]

/-- The address of `url` and its parenthesis are an address again with nothing behind. -/
theorem address_again {inner : List Char} (closed : address text = (inner, true))
    (opens : text.head? = some '(') :
    ∃ more, inner ++ [')'] = '(' :: more ∧ address (inner ++ [')']) = (inner, true) := by
  obtain ⟨behind, split⟩ := address_isPrefix closed
  rw [← split] at closed opens
  have again := address_replace [] closed (by simp)
  rw [List.append_nil] at again
  cases inner with
  | nil => cases opens
  | cons d inner =>
    cases opens
    exact ⟨inner ++ [')'], rfl, again⟩

theorem address_alone (h : IsAddress c rest) (read : name c rest = .ok item) :
    ReadsAlone item := by
  obtain ⟨word, opens⟩ := h
  obtain ⟨rfl, tail⟩ := List.cons.inj word
  obtain ⟨after, split⟩ := nameTail_isPrefix rest
  rw [tail] at split opens
  subst split
  rw [List.drop_left] at opens
  unfold name at read
  simp only [tail, List.drop_left] at read
  rw [if_pos ⟨trivial, opens⟩] at read
  split at read
  · next inner closed =>
    obtain ⟨more, spelled, again⟩ := address_again closed opens
    cases read
    refine ⟨'u', 'r' :: 'l' :: (inner ++ [')']), rfl, ?_⟩
    have here : IsAddress 'u' ('r' :: 'l' :: (inner ++ [')'])) := by
      rw [spelled]
      exact ⟨rfl, rfl⟩
    have tail' : nameTail ('r' :: 'l' :: (inner ++ [')'])) = ['r', 'l'] := (List.cons.inj here.1).2
    rw [lexeme_of_isAddress here]
    unfold IsAddress at here
    unfold name
    simp only [tail'] at here ⊢
    rw [if_pos here]
    split
    · next found =>
      cases again.symm.trans found
      rfl
    · next found => cases again.symm.trans found
  · cases read

/-- A name that is not the one before an address. -/
theorem name_cut {kept : List Char} (tail : nameTail text = kept) (other : ¬ IsAddress c text) :
    name c text = .ok ⟨.ident (String.ofList (c :: kept)), c :: kept, List.cons_ne_nil _ _⟩ := by
  subst tail
  unfold name
  exact if_neg other

/-- A name is read again unless it ends with a hyphen. -/
theorem name_alone (first : TakesName c rest)
    (read : name c rest = .ok item) :
    ReadsAlone item ∧ ¬ item.kind.EndsWithHyphen ∨ EndsWithHyphen c rest item := by
  by_cases isAddress : IsAddress c rest
  · refine .inl ⟨address_alone isAddress read, ?_⟩
    unfold IsAddress at isAddress
    unfold name at read
    simp only at read
    rw [if_pos isAddress] at read
    split at read <;> cases read
    rintro ⟨_, ⟨⟩, -⟩
  rw [name_cut rfl isAddress] at read
  cases read
  rcases nameTail_nameTail rest with ⟨unended, whole⟩ | ⟨front, ended, -⟩
  · by_cases bare : c = '-' ∧ nameTail rest = []
    · obtain ⟨rfl, none⟩ := bare
      have named : startsNameAfterHyphen rest = true := by
        simpa [TakesName, isAlphabetic] using first
      have behind := head?_of_continuesName (continuesName_of_startsNameAfterHyphen named) none
      refine .inr ⟨rfl, rfl, ?_, first, ?_⟩
      · simp [none]
      · simpa [none] using behind
    · have closed : ¬ IsAddress c (nameTail rest) := by
        rintro ⟨-, opens⟩
        rw [whole, List.drop_length] at opens
        cases opens
      refine .inl ⟨⟨c, nameTail rest, rfl, ?_⟩, ?_⟩
      · rw [lexeme_of_takesName (first.nameTail bare), name_cut whole closed]
      · rintro ⟨_, ⟨⟩, ended⟩
        rw [String.toList_ofList] at ended
        by_cases none : nameTail rest = []
        · rw [none] at ended
          cases ended
          exact bare ⟨rfl, none⟩
        · rw [List.getLast?_cons_of_ne_nil none] at ended
          exact unended ended
  · refine .inr ⟨rfl, rfl, ?_, first, ?_⟩
    · show (c :: nameTail rest).getLast? = some '-'
      rw [ended, ← List.cons_append, List.getLast?_concat]
    · exact head?_behind_nameTail ended

theorem markedWord_alone (marks : c = '#' ∨ c = '@') (some : markedWord rest ≠ [])
    (notNil : c :: markedWord rest ≠ []) : ReadsAlone
      ⟨if c = '#' then .hash (String.ofList (markedWord rest))
        else .atWord (String.ofList (markedWord rest)), c :: markedWord rest, notNil⟩ := by
  have again : markedWord (markedWord rest) = markedWord rest := List.takeWhile_idem
  refine ⟨c, markedWord rest, rfl, ?_⟩
  have unnumbered : ¬ TakesNumber none c (markedWord rest) := by
    rcases marks with rfl | rfl <;> rintro (starts | ⟨⟨⟩, -⟩) <;> cases starts
  have others : ¬ (c = '"' ∨ c = '\'') ∧ ¬ TakesName c (markedWord rest) := by
    rcases marks with rfl | rfl <;> simp [TakesName, isAlphabetic]
  unfold lexeme
  refine (if_neg others.1).trans ((if_neg unnumbered).trans ((if_neg others.2).trans ?_))
  rw [if_pos ⟨marks, again.symm ▸ some⟩]
  simp only [again]

/-- A character that starts nothing else is a symbol by itself too. -/
theorem symbol_alone (unquoted : ¬ (c = '"' ∨ c = '\''))
    (unnumbered : ¬ TakesNumber previous c rest)
    (unnamed : ¬ TakesName c rest)
    (none : fixed? (c :: rest) = none) (solid : ¬ isControl c = true) (notNil : [c] ≠ []) :
    ReadsAlone ⟨.symbol c, [c], notNil⟩ := by
  refine ⟨c, [], rfl, ?_⟩
  have unfixed : fixed? [c] = .none := by
    refine List.find?_eq_none.2 fun entry mem starts => List.find?_eq_none.1 none entry mem ?_
    have front := List.isPrefixOf_iff_prefix.1 starts
    exact List.isPrefixOf_iff_prefix.2 (front.trans (List.prefix_append [c] rest))
  have unnumbered' : ¬ TakesNumber .none c [] := by
    rintro (starts | ⟨-, starts, -⟩)
    · rcases startsNumber_cases starts with ⟨d, more, same, digit⟩ | ⟨d, more, same, -⟩
      · cases same
        exact unnumbered (.inl (startsNumber_of_isDigit digit))
      · cases same
    · cases starts
  have unnamed' : ¬ TakesName c [] := by
    refine mt (.imp_right (.imp_right (.imp_right ?_))) unnamed
    rintro ⟨-, ⟨⟩⟩
  unfold lexeme
  refine (if_neg unquoted).trans ((if_neg unnumbered').trans ((if_neg unnamed').trans ?_))
  rw [if_neg fun marked => marked.2 rfl]
  split
  · next some =>
    rw [unfixed] at some
    cases some
  · exact if_neg solid

end Lexeme

open Lexeme in
/-- A lexeme has one spelling, or it is read again from its own, or it is a name that ends with a
hyphen. -/
theorem lexeme_alone {previous : Option Char} {c : Char} {rest : List Char} {item : Lexeme}
    (read : lexeme previous c rest = .ok item) :
    (item.spelling, item.kind) ∈ Kind.fixedKinds ∨ c ≠ '/' ∧ item.ReadsAlone ∨
      EndsWithHyphen c rest item := by
  by_cases slash : c = '/'
  · subst slash
    have here : lexeme previous '/' rest = .ok ⟨.slash, ['/'], by simp⟩ := rfl
    rw [here] at read
    cases read
    exact .inl (by decide)
  unfold lexeme at read
  split at read
  · next isQuote => exact .inr (.inl ⟨slash, string_alone isQuote read⟩)
  next unquoted =>
  split at read
  · next takes => exact .inr (.inl ⟨slash, number_alone takes read⟩)
  next unnumbered =>
  split at read
  · next first => exact .inr ((name_alone first read).imp_left fun alone => ⟨slash, alone.1⟩)
  next unnamed =>
  split at read
  · next marked =>
    cases read
    exact .inr (.inl ⟨slash, markedWord_alone marked.1 marked.2 _⟩)
  next unmarked =>
  split at read
  · next fixed =>
    cases read
    exact .inl (List.mem_of_find?_eq_some fixed)
  · next none =>
    split at read
    · cases read
    · next solid =>
      cases read
      exact .inr (.inl ⟨slash, symbol_alone unquoted unnumbered unnamed none solid _⟩)

open Lexeme in
/-- Only a name is an identifier. -/
theorem name_of_ident {previous : Option Char} {c : Char} {rest : List Char} {item : Lexeme}
    {word : String} (read : lexeme previous c rest = .ok item) (kind : item.kind = .ident word) :
    TakesName c rest ∧ name c rest = .ok item := by
  unfold lexeme at read
  split at read
  · unfold string at read
    split at read <;> cases read
    cases kind
  split at read
  · next unquoted takes =>
    obtain ⟨value, item', -, read', kind'⟩ := exists_number takes
    rw [lexeme_of_takesNumber takes, read] at read'
    cases read'
    rw [kind] at kind'
    cases kind'
  split at read
  · next first => exact ⟨first, read⟩
  split at read
  · cases read
    replace kind : (if c = '#' then Kind.hash _ else .atWord _) = .ident word := kind
    split at kind <;> cases kind
  split at read
  · next fixed =>
    cases read
    cases kind
    cases mark_of_mem_fixedKinds _ (List.mem_of_find?_eq_some fixed)
  · split at read <;> cases read
    cases kind

/-! ## Tokens -/

/-- The text by itself is cut into tokens of these kinds, and then the input ends. -/
def CutAlone (text : List Char) (kinds : List Kind) : Prop :=
  ∃ tokens, tokenize (String.ofList text) = .ok tokens ∧
    tokens.map (·.kind) = kinds ++ [.endOfInput]

/-- A kind with one spelling is cut from it. -/
theorem cutAlone_fixed {text : List Char} {kind : Kind} (h : (text, kind) ∈ Kind.fixedKinds) :
    CutAlone text [kind] := by
  have all : ∀ entry ∈ Kind.fixedKinds, (tokenize (String.ofList entry.1)).map
      (·.map (·.kind)) = .ok [entry.2, .endOfInput] := by
    decide +kernel
  obtain ⟨tokens, cut, kinds⟩ := map_eq_ok_iff.1 (all _ h)
  exact ⟨tokens, cut, kinds⟩

section
variable {c : Char} {rest : List Char} {item : Lexeme}

theorem cutAlone_of_cuts {text : List Char} {kinds : List Kind} {last : Option Char}
    (h : Cuts none (c :: text) kinds last []) (solid : c ∉ [' ', '\t', '\n', '\r', '/']) :
    CutAlone (c :: text) kinds := by
  obtain ⟨tokens, final, cut, same, ends⟩ := tokenize_of_cuts h solid
  exact ⟨_, cut, by simp [same, ends]⟩

theorem Lexeme.ReadsAlone.cutAlone (h : item.ReadsAlone)
    (solid : ∀ c ∈ item.spelling.head?, c ∉ [' ', '\t', '\n', '\r', '/']) :
    CutAlone item.spelling [item.kind] := by
  obtain ⟨kind, spelling, notNil⟩ := item
  obtain ⟨c, tail, rfl, read⟩ := h
  have here : Lexeme.At none ((c :: tail) ++ []) ⟨kind, c :: tail, notNil⟩ := by
    rw [List.append_nil]
    exact Lexeme.at_of_lexeme (solid c rfl) read
  have cut : CutAlone (c :: (tail ++ [])) [kind] :=
    cutAlone_of_cuts (.lexeme here .nil) (solid c rfl)
  rwa [List.append_nil] at cut

/-- A name that ends with a hyphen is by itself the name without it, if anything is left, and a
minus sign. -/
theorem Lexeme.EndsWithHyphen.cutAlone (h : EndsWithHyphen c rest item)
    (solid : c ∉ [' ', '\t', '\n', '\r', '/']) :
    CutAlone item.spelling ((if item.spelling = ['-'] then []
      else [.ident (String.ofList item.spelling.dropLast)]) ++ [.minus]) := by
  have ended := h.ended
  rw [h.spelling] at ended ⊢
  rcases nameTail_nameTail rest with ⟨unended, -⟩ | ⟨front, tail, cut⟩
  · have none : nameTail rest = [] := by
      by_contra some
      rw [List.getLast?_cons_of_ne_nil some] at ended
      exact unended ended
    rw [none] at ended ⊢
    obtain rfl : c = '-' := by simpa using ended
    rw [if_pos rfl, List.nil_append]
    exact cutAlone_fixed (by decide)
  · have some : nameTail rest ≠ [] := by simp [tail]
    have other : ¬ IsAddress c (nameTail rest) := by
      rintro ⟨-, opens⟩
      rw [cut, tail, List.drop_left] at opens
      cases opens
    have read : lexeme none c (nameTail rest) =
        .ok ⟨.ident (String.ofList (c :: front)), c :: front, List.cons_ne_nil _ _⟩ := by
      rw [lexeme_of_takesName (h.first.nameTail fun bare => some bare.2), name_cut cut other]
    have here := at_of_lexeme solid read
    rw [tail] at here ⊢
    have minus : Cuts (c :: front).getLast? ['-'] [.minus] _ [] :=
      .mark (at_minus nofun rfl) .nil
    have two : c :: (front ++ ['-']) ≠ ['-'] := by simp
    rw [if_neg two, ← List.cons_append, List.dropLast_concat]
    exact cutAlone_of_cuts (.lexeme here minus) solid

end

theorem CutAlone.congr {text : List Char} {kinds kinds' : List Kind} (h : CutAlone text kinds)
    (h' : CutAlone text kinds') : kinds = kinds' := by
  obtain ⟨tokens, cut, same⟩ := h
  obtain ⟨tokens', cut', same'⟩ := h'
  rw [cut] at cut'
  cases cut'
  exact List.append_cancel_right (same.symm.trans same')

namespace Scan.CutsLexeme

variable {scan next : Scan} {source : List Char} {before : List Token} {c : Char}
  {rest : List Char} {item : Lexeme} {token : Token}

/-- The spelling of a lexeme is the slice of its token. -/
theorem slice (h : CutsLexeme scan c rest item token next) (comes : Comes source before scan) :
    ∃ passed, source = passed ++ item.spelling ++ next.cursor.rest ∧
      token.span.start = byteLength passed ∧
      slice? (String.ofList source) token.span.start token.span.stop =
        some (String.ofList item.spelling) := by
  obtain ⟨passed, place⟩ := comes.reached.place
  have split : source = passed ++ item.spelling ++ next.cursor.rest := by
    rw [place.split, h.rest_eq, List.append_assoc]
  have start : token.span.start = byteLength passed := by
    rw [h.token]
    exact place.offset
  have stop : token.span.stop = byteLength passed + byteLength item.spelling := by
    rw [h.token, ← place.offset]
    show (scan.cursor.along _).offset = _
    rw [Cursor.offset_along, h.rest_eq, List.take_left]
  refine ⟨passed, split, start, ?_⟩
  rw [start, stop]
  exact slice?_eq_some (by rw [String.toList_ofList, split])

/-- A lexeme starts with no blank, no line break and, but for the slash, no slash. -/
theorem solid_first (h : CutsLexeme scan c rest item token next) (slash : c ≠ '/') :
    c ∉ [' ', '\t', '\n', '\r', '/'] := by
  have blank := h.solid
  have unbroken := h.unbroken
  intro mem
  rcases (by simpa using mem : c = ' ' ∨ c = '\t' ∨ c = '\n' ∨ c = '\r' ∨ c = '/') with
    rfl | rfl | rfl | rfl | rfl
  · cases blank
  · cases blank
  · cases unbroken
  · rw [lineBreak_return] at unbroken
    split at unbroken <;> cases unbroken
  · exact slash rfl

end Scan.CutsLexeme

/-- The slice of a token that is no mark of a line or level, cut by itself, is this token, its data
included, and the end of the input; unless the token is a name that ends with a hyphen. Such a name
has another hyphen behind it, and by itself it is cut into the name without its last hyphen, if
anything is left of it, and a minus sign. -/
theorem tokenize_alone {source : String} {tokens : List Token} {token : Token}
    (cut : tokenize source = .ok tokens) (mem : token ∈ tokens)
    (content : token.kind.endsLine = false) :
    ∃ before text after, source.toList = before ++ text ++ after ∧
      token.span.start = byteLength before ∧
      slice? source token.span.start token.span.stop = some (String.ofList text) ∧
      (CutAlone text [token.kind] ↔ ¬ token.kind.EndsWithHyphen) ∧
      (token.kind.EndsWithHyphen → after.head? = some '-' ∧
        CutAlone text ((if text = ['-'] then [] else [.ident (String.ofList text.dropLast)]) ++
          [.minus])) := by
  obtain ⟨front, behind, rfl⟩ := List.append_of_mem mem
  rw [← String.ofList_toList (s := source)] at cut
  obtain ⟨scan, c, rest, item, next, comes, cuts⟩ := Scan.exists_cutsLexeme cut content
  obtain ⟨before, split, start, slice⟩ := cuts.slice comes
  rw [String.ofList_toList] at slice
  have kind : token.kind = item.kind := by
    rw [cuts.token]
    rfl
  refine ⟨before, item.spelling, next.cursor.rest, split, start, slice, ?_⟩
  rw [kind]
  by_cases ends : item.kind.EndsWithHyphen
  · obtain ⟨_, ident, -⟩ := id ends
    obtain ⟨first, named⟩ := name_of_ident cuts.read ident
    have ended := (Lexeme.name_alone first named).resolve_left fun alone => alone.2 ends
    have alone := ended.cutAlone (cuts.solid_first first.ne_slash)
    refine ⟨⟨fun whole => ?_, fun not => absurd ends not⟩, fun _ => ⟨?_, alone⟩⟩
    · have kinds := whole.congr alone
      rw [ident] at kinds
      split at kinds <;> cases kinds
    · rw [cuts.next, Cursor.rest_along, cuts.here]
      exact ended.behind
  · refine ⟨⟨fun _ => ends, fun _ => ?_⟩, fun h => absurd h ends⟩
    rcases lexeme_alone cuts.read with fixed | ⟨slash, alone⟩ | ended
    · exact cutAlone_fixed fixed
    · refine alone.cutAlone fun d hd => ?_
      have first : item.spelling.head? = some c := by
        obtain ⟨more, split⟩ := (lexeme_frontOf cuts.read).starts
        rw [← List.head?_append_of_ne_nil _ item.spelling_ne_nil, split]
        rfl
      rw [first] at hd
      cases hd
      exact cuts.solid_first slash
    · exact absurd ⟨_, ended.kind, by rw [String.toList_ofList, ended.ended]⟩ ends

/-- The name before two hyphens takes the first of them, which by itself is a minus sign, as the
second one is. -/
theorem alone_hyphens :
    tokenize "a--" = .ok [⟨.ident "a-", ⟨0, 2, 1, 1⟩⟩, ⟨.minus, ⟨2, 3, 1, 3⟩⟩,
        ⟨.endOfInput, ⟨3, 3, 1, 4⟩⟩] ∧
      ¬ CutAlone ['a', '-'] [.ident "a-"] ∧ CutAlone ['a', '-'] [.ident "a", .minus] ∧
      CutAlone ['-'] [.minus] := by
  have cut : tokenize "a--" = .ok [⟨.ident "a-", ⟨0, 2, 1, 1⟩⟩, ⟨.minus, ⟨2, 3, 1, 3⟩⟩,
      ⟨.endOfInput, ⟨3, 3, 1, 4⟩⟩] := by
    decide +kernel
  have text_eq {text letters : List Char}
      (h : some (String.ofList letters) = some (String.ofList text)) : letters = text := by
    have same := congrArg String.toList (Option.some.inj h)
    rwa [String.toList_ofList, String.toList_ofList] at same
  obtain ⟨_, text, _, -, -, slice, whole, hyphen⟩ := tokenize_alone cut (.head _) rfl
  have first : slice? "a--" 0 2 = some (String.ofList ['a', '-']) := by decide +kernel
  obtain rfl := text_eq (first.symm.trans slice)
  have ends : Kind.EndsWithHyphen (.ident "a-") := ⟨"a-", rfl, by decide⟩
  have shorter := (hyphen ends).2
  rw [if_neg (by decide)] at shorter
  obtain ⟨_, text', _, -, -, slice', whole', -⟩ := tokenize_alone cut (.tail _ (.head _)) rfl
  have second : slice? "a--" 2 3 = some (String.ofList ['-']) := by decide +kernel
  obtain rfl := text_eq (second.symm.trans slice')
  exact ⟨cut, fun alone => whole.1 alone ends, shorter, whole'.2 nofun⟩

end StylusToScss
