import StylusToScss.Proofs.Token.Delimited
import StylusToScss.Proofs.Token.Slices

/-!
# What a pair of quotes can enclose

A string ends at the first of its quotes that no backslash escapes. So a text can stand between two
quotes if it keeps to its line, ends with no backslash of its own, and holds the quote only where it
is escaped (`Enclosed`). A text that can stand between quotes of one kind can stand between others
unless it holds one of them (`enclosed_iff`), and texts in a row can if each of them can
(`enclosed_flatten_iff`).

* `Lexeme.stringValue_of_enclosed`: such a text is read as the value of a string.
* `enclosed_of_tokenize`: the value of a string of a source can stand between its quotes.
-/

namespace StylusToScss

variable {quote mark : Char} {text value : List Char}

/-- The text can stand between two quotes: one after the other, characters that end neither the
string nor its line, and any characters behind a backslash. -/
inductive Enclosed (quote : Char) : List Char → Prop
  | nil : Enclosed quote []
  | char {c : Char} {rest : List Char} (other : c ≠ quote) (plain : c ≠ '\\')
      (inLine : ¬ (c = '\n' ∨ c = '\r')) (more : Enclosed quote rest) : Enclosed quote (c :: rest)
  | escape {d : Char} {rest : List Char} (more : Enclosed quote rest) :
      Enclosed quote ('\\' :: d :: rest)

/-- The quote stands somewhere in the text, and no backslash escapes it. -/
inductive HoldsBare (quote : Char) : List Char → Prop
  | here {rest : List Char} : HoldsBare quote (quote :: rest)
  | char {c : Char} {rest : List Char} (plain : c ≠ '\\') (more : HoldsBare quote rest) :
      HoldsBare quote (c :: rest)
  | escape {d : Char} {rest : List Char} (more : HoldsBare quote rest) :
      HoldsBare quote ('\\' :: d :: rest)

theorem ne_backslash_of_isQuote (isQuote : quote = '"' ∨ quote = '\'') : '\\' ≠ quote := by
  rcases isQuote with rfl | rfl <;> decide

/-! ## Other quotes -/

theorem Enclosed.not_holdsBare (isQuote : quote = '"' ∨ quote = '\'') (h : Enclosed quote text) :
    ¬ HoldsBare quote text := by
  intro held
  induction h with
  | nil => cases held
  | char other plain _ _ ih =>
    cases held with
    | here => exact other rfl
    | char _ held => exact ih held
    | escape => exact plain rfl
  | escape _ ih =>
    cases held with
    | here => exact ne_backslash_of_isQuote isQuote rfl
    | char plain => exact plain rfl
    | escape held => exact ih held

theorem Enclosed.exchange (h : Enclosed mark text) (bare : ¬ HoldsBare quote text) :
    Enclosed quote text := by
  induction h with
  | nil => exact .nil
  | @char c rest _ plain inLine _ ih =>
    refine .char ?_ plain inLine (ih fun held => bare (.char plain held))
    rintro rfl
    exact bare .here
  | escape _ ih => exact .escape (ih fun held => bare (.escape held))

/-- What stands between quotes can stand between other ones unless it holds one of them. -/
theorem enclosed_iff (isQuote : quote = '"' ∨ quote = '\'') (h : Enclosed mark text) :
    Enclosed quote text ↔ ¬ HoldsBare quote text :=
  ⟨Enclosed.not_holdsBare isQuote, h.exchange⟩

/-! ## Texts in a row -/

namespace Enclosed

variable {front back : List Char}

theorem append (h : Enclosed quote front) (h' : Enclosed quote back) :
    Enclosed quote (front ++ back) := by
  induction h with
  | nil => exact h'
  | char other plain inLine _ ih => exact .char other plain inLine ih
  | escape _ ih => exact .escape ih

theorem of_char {c : Char} (plain : c ≠ '\\') (h : Enclosed quote (c :: text)) :
    c ≠ quote ∧ Enclosed quote text := by
  cases h with
  | char other _ _ more => exact ⟨other, more⟩
  | escape => exact absurd rfl plain

theorem of_escape {d : Char} (h : Enclosed quote ('\\' :: d :: text)) : Enclosed quote text := by
  cases h with
  | char _ plain => exact absurd rfl plain
  | escape more => exact more

/-- Where a text that can stand between some quotes ends, no escape is open, so what follows it can
stand between quotes by itself. -/
theorem of_append (complete : Enclosed mark front) (h : Enclosed quote (front ++ back)) :
    Enclosed quote front ∧ Enclosed quote back := by
  induction complete with
  | nil => exact ⟨.nil, h⟩
  | char _ plain inLine _ ih =>
    obtain ⟨other, more⟩ := of_char plain h
    obtain ⟨first, rest⟩ := ih more
    exact ⟨.char other plain inLine first, rest⟩
  | escape _ ih =>
    obtain ⟨first, rest⟩ := ih (of_escape h)
    exact ⟨.escape first, rest⟩

end Enclosed

theorem enclosed_flatten_iff {texts : List (List Char)}
    (complete : ∀ text ∈ texts, ∃ mark, Enclosed mark text) :
    Enclosed quote texts.flatten ↔ ∀ text ∈ texts, Enclosed quote text := by
  induction texts with
  | nil => exact ⟨fun _ => nofun, fun _ => .nil⟩
  | cons text texts ih =>
    obtain ⟨mark, here⟩ := complete text (.head _)
    have more := ih fun other mem => complete other (.tail _ mem)
    rw [List.flatten_cons, List.forall_mem_cons]
    constructor
    · intro h
      obtain ⟨first, rest⟩ := here.of_append h
      exact ⟨first, more.1 rest⟩
    · exact fun ⟨first, rest⟩ => first.append (more.2 rest)

/-! ## Reading -/

namespace Lexeme

theorem enclosed_of_stringValue (read : stringValue quote text = .ok value) :
    Enclosed quote value := by
  fun_induction stringValue quote text generalizing value with
  | case1 | case3 | case5 => cases read
  | case2 =>
    cases read
    exact .nil
  | case4 d rest _ ih =>
    obtain ⟨more, hm, rfl⟩ := map_eq_ok_iff.1 read
    exact .escape (ih hm)
  | case6 c rest other plain inLine ih =>
    obtain ⟨more, hm, rfl⟩ := map_eq_ok_iff.1 read
    exact .char other plain inLine (ih hm)

theorem stringValue_of_enclosed (isQuote : quote = '"' ∨ quote = '\'') (h : Enclosed quote value)
    (more : List Char) : stringValue quote (value ++ quote :: more) = .ok value := by
  induction h with
  | nil => exact stringValue_quote
  | char other plain inLine _ ih =>
    rw [List.cons_append, stringValue_char other plain inLine, ih]
    rfl
  | escape _ ih =>
    rw [List.cons_append, List.cons_append, stringValue_escape (ne_backslash_of_isQuote isQuote),
      ih]
    rfl

end Lexeme

/-- A lexeme that is a string starts with its quote and is read as a string. -/
theorem stringValue_of_lexeme {previous : Option Char} {c : Char} {rest : List Char}
    {item : Lexeme} {value : String} (read : lexeme previous c rest = .ok item)
    (kind : item.kind = .string value quote) :
    c = quote ∧ (quote = '"' ∨ quote = '\'') ∧
      Lexeme.stringValue quote rest = .ok value.toList := by
  obtain ⟨⟨behind, starts⟩, spelled⟩ := lexeme_frontOf read
  rw [kind] at spelled
  obtain ⟨isQuote, spelling⟩ := spelled
  rw [spelling] at starts
  obtain rfl : quote = c := (List.cons.inj starts).1
  refine ⟨rfl, isQuote, ?_⟩
  unfold lexeme at read
  rw [if_pos isQuote, Lexeme.string] at read
  split at read
  · next text ok =>
    cases read
    obtain ⟨rfl, -⟩ := Kind.string.inj kind
    rw [ok, String.toList_ofList]
  · cases read
  · cases read

/-- The value of a string of a source can stand between its quotes. -/
theorem enclosed_of_tokenize {source value : String} {tokens : List Token} {token : Token}
    (cut : tokenize source = .ok tokens) (mem : token ∈ tokens)
    (kind : token.kind = .string value quote) :
    (quote = '"' ∨ quote = '\'') ∧ Enclosed quote value.toList := by
  have content : token.kind.endsLine = false := by rw [kind]; rfl
  obtain ⟨_, c, rest, item, isLexeme⟩ := lexeme_of_tokenize cut mem content
  obtain ⟨-, isQuote, read⟩ :=
    stringValue_of_lexeme isLexeme.read (isLexeme.kind.symm.trans kind)
  exact ⟨isQuote, Lexeme.enclosed_of_stringValue read⟩

end StylusToScss
