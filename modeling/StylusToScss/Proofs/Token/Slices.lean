import StylusToScss.Proofs.Token.Lossless
import StylusToScss.Proofs.Token.Steps

/-!
# Tokens as slices of their source

Readers take text from the source between two tokens. `Sliced` is what makes this possible for any
part of a token list: the spans are slices of the source and stand in order. It also says that a
token covers something that a selector can hold, a character that is neither blank nor a comma. This
fails for one kind of token only, the symbol that is a blank character, such as a no-break space.

* `lexeme_of_tokenize`: a token that is no mark of a line or level is a lexeme of the source.
* `sliced_of_tokenize`: the tokens of a source are sliced from it.
-/

namespace StylusToScss

open Text

/-! ## Blank characters and commas -/

/-- A blank is no ASCII letter or digit. -/
theorem isAlphanum_of_isBlank {c : Char} (h : isBlank c = true) : c.isAlphanum = false := by
  have ranges : c.isAlphanum = (decide (65 ≤ c.val ∧ c.val ≤ 90) ||
      97 ≤ c.val && c.val ≤ 122 || 48 ≤ c.val && c.val ≤ 57) := rfl
  rw [Bool.eq_false_iff]
  intro word
  have code : c.toNat = c.val.toNat := rfl
  simp only [ranges, Bool.or_eq_true, Bool.and_eq_true, decide_eq_true_eq,
    UInt32.le_iff_toNat_le, UInt32.reduceToNat] at word
  simp only [isBlank, Bool.or_eq_true, Bool.and_eq_true, decide_eq_true_eq, beq_iff_eq] at h
  omega

/-- A blank is no letter. -/
theorem isAlphabetic_of_isBlank {c : Char} (h : isBlank c = true) : isAlphabetic c = false := by
  have ascii := isAlphanum_of_isBlank h
  have blanks : ∀ n ∈ [0x85, 0xa0, 0x1680, 0x2000, 0x2001, 0x2002, 0x2003, 0x2004, 0x2005, 0x2006,
      0x2007, 0x2008, 0x2009, 0x200a, 0x2028, 0x2029, 0x202f, 0x205f, 0x3000],
      (alphabeticRanges.any fun r => r.1 ≤ n && n ≤ r.2) = false := by
    decide +kernel
  unfold isAlphabetic
  split
  · exact (Bool.or_eq_false_iff.1 ascii).1
  · simp only [isBlank, Bool.or_eq_true, Bool.and_eq_true, decide_eq_true_eq, beq_iff_eq] at h
    refine blanks c.toNat ?_
    simp only [List.mem_cons, List.not_mem_nil, or_false]
    omega

/-- No fixed spelling starts with a blank. -/
theorem fixed?_of_isBlank {c : Char} (rest : List Char) (blank : isBlank c = true) :
    Lexeme.fixed? (c :: rest) = none := by
  have solid : ∀ entry ∈ Kind.fixedKinds, (entry.1.head?.any fun d => !isBlank d) = true := by
    decide
  apply List.find?_eq_none.2
  intro entry he starts
  have first := solid entry he
  obtain ⟨spelling, kind⟩ := entry
  cases spelling with
  | nil => cases first
  | cons d more =>
    obtain ⟨rfl, -⟩ := List.cons_prefix_cons.1 (List.isPrefixOf_iff_prefix.1 starts)
    simp [blank] at first

/-- A blank that is a lexeme is a symbol. -/
theorem kind_lexeme_of_isBlank {previous : Option Char} {c : Char} {rest : List Char}
    {item : Lexeme} (h : lexeme previous c rest = .ok item) (blank : isBlank c = true) :
    item.kind = .symbol c := by
  have other (d : Char) (solid : isBlank d = false) : c ≠ d := by
    rintro rfl
    rw [blank] at solid
    cases solid
  have number : Lexeme.startsNumber (c :: rest) = false := by
    unfold Lexeme.startsNumber
    split
    · next eq => exact absurd (List.cons.inj eq).1 (other '.' (by decide))
    · next eq =>
      cases eq
      exact (Bool.or_eq_false_iff.1 (isAlphanum_of_isBlank blank)).2
    · rfl
  have letter := isAlphabetic_of_isBlank blank
  have fixed := fixed?_of_isBlank rest blank
  unfold lexeme at h
  rw [if_neg, if_neg, if_neg, if_neg] at h
  · split at h
    · next some => rw [fixed] at some; cases some
    · split at h
      · cases h
      · cases h
        rfl
  · simp [other '#' (by decide), other '@' (by decide)]
  · simp [letter, other '_' (by decide), other '$' (by decide), other '-' (by decide)]
  · simp [number, other '-' (by decide)]
  · simp [other '"' (by decide), other '\'' (by decide)]

/-- A comma is a lexeme of its own. -/
theorem kind_lexeme_comma {previous : Option Char} {rest : List Char} {item : Lexeme}
    (h : lexeme previous ',' rest = .ok item) : item.kind = .comma := by
  have fixed : Lexeme.fixed? (',' :: rest) = some ([','], .comma) := rfl
  unfold lexeme at h
  rw [if_neg, if_neg, if_neg, if_neg] at h
  · split at h
    · next some =>
      rw [fixed] at some
      cases some
      cases h
      rfl
    · next none =>
      rw [fixed] at none
      cases none
  all_goals simp [Lexeme.startsNumber, isAlphabetic]

/-! ## Lexemes of a source -/

/-- A lexeme of the source: the token stands for the text at the front of what is behind the
text that has been passed. -/
structure IsLexeme (source : List Char) (token : Token) (passed : List Char) (c : Char)
    (rest : List Char) (item : Lexeme) : Prop where
  split : source = passed ++ c :: rest
  read : lexeme passed.getLast? c rest = .ok item
  kind : token.kind = item.kind
  starts : token.span.start = byteLength passed
  stops : token.span.stop = token.span.start + byteLength item.spelling

namespace Scan

/-- A step that cuts a token which is no mark of a line or level passes a lexeme. -/
theorem Step.isLexeme {source passed : List Char} {scan next : Scan} {ahead behind : List Token}
    {token : Token} (step : Step scan (ahead ++ token :: behind) next)
    (place : scan.cursor.Place source passed) (content : token.kind.endsLine = false) :
    ∃ c rest item, IsLexeme source token passed c rest item := by
  generalize cut : ahead ++ token :: behind = tokens at step
  have mem : token ∈ tokens := cut ▸ List.mem_append_right _ (.head _)
  cases step with
  | line _ _ opened =>
    cases startLine_ok opened with
    | empty => cases mem
    | indent =>
      cases List.mem_singleton.1 mem
      cases content
    | dedents =>
      cases List.eq_of_mem_replicate mem
      cases content
  | newline _ _ broken =>
    rcases breakLine_cases broken with ⟨-, rfl, -⟩ | ⟨-, rfl, -⟩
    · cases List.mem_singleton.1 mem
      cases content
    · cases mem
  | @lexeme c rest item here _ _ read =>
    cases List.mem_singleton.1 mem
    have front := List.prefix_iff_eq_take.1 (lexeme_frontOf read).starts
    refine ⟨c, rest, item, here ▸ place.split, place.previous ▸ read, rfl, place.offset, ?_⟩
    show (scan.cursor.along _).offset = scan.cursor.offset + _
    rw [Cursor.offset_along, here, ← front]
  | space | commentLine | commentBlock => cases mem

end Scan

/-- A token of a source that is no mark of a line or level is a lexeme of it. -/
theorem lexeme_of_tokenize {source : String} {tokens : List Token} {token : Token}
    (h : tokenize source = .ok tokens) (mem : token ∈ tokens)
    (content : token.kind.endsLine = false) :
    ∃ passed c rest item, IsLexeme source.toList token passed c rest item := by
  obtain ⟨before, last, comes, -, rfl⟩ := Scan.Comes.of_tokenize h
  rcases List.mem_append.1 mem with mem | mem
  · obtain ⟨first, rest, split⟩ := List.append_of_mem mem
    obtain ⟨_, ahead, behind, from_, next, c, text, -, comes, here, step⟩ := comes.cuts split
    obtain ⟨passed, place⟩ := comes.reached.place
    exact ⟨passed, (Scan.step_ok here step).isLexeme place content⟩
  · rcases List.mem_append.1 mem with mem | mem
    · rw [List.eq_of_mem_replicate mem] at content
      cases content
    · rw [List.mem_singleton.1 mem] at content
      cases content

/-! ## Slices -/

/-- The token covers a character that is neither blank nor a comma. -/
def Token.CoversSolid (source : String) (token : Token) : Prop :=
  ∃ text c, slice? source token.span.start token.span.stop = some text ∧ c ∈ text.toList ∧
    isBlank c = false ∧ c ≠ ','

/-- The tokens are slices of the source in order. If `bare` does not hold, every token covers
something that a selector can hold, except for commas and the marks of lines and levels. -/
structure Sliced (source : String) (bare : Prop) (tokens : List Token) : Prop where
  ordered : tokens.Pairwise fun a b => a.span.stop ≤ b.span.start
  slices : ∀ token ∈ tokens, (slice? source token.span.start token.span.stop).isSome
  solid : ¬ bare → ∀ token ∈ tokens, token.kind.endsLine = false → token.kind ≠ .comma →
    token.CoversSolid source

variable {source : String} {bare : Prop} {tokens part : List Token}

theorem Sliced.sublist (h : Sliced source bare tokens) (sub : part.Sublist tokens) :
    Sliced source bare part where
  ordered := h.ordered.sublist sub
  slices token ht := h.slices token (sub.subset ht)
  solid not token ht := h.solid not token (sub.subset ht)

/-- Tokens that a text is cut into without loss start behind its offset and stand in order. -/
theorem Lossless.ordered {offset : Nat} {text : List Char} (h : Lossless offset text tokens) :
    (∀ token ∈ tokens, offset ≤ token.span.start) ∧
      tokens.Pairwise fun a b => a.span.stop ≤ b.span.start := by
  induction h with
  | nil => exact ⟨nofun, .nil⟩
  | cons _ _ starts stops _ ih =>
    refine ⟨?_, .cons ih.1 ih.2⟩
    rintro token (_ | ⟨_, ht⟩)
    · omega
    · have := ih.1 token ht
      omega

/-- A lexeme covers something solid, unless it is a comma or a blank. -/
theorem IsLexeme.coversSolid {token : Token} {passed rest : List Char} {c : Char} {item : Lexeme}
    (h : IsLexeme source.toList token passed c rest item) (comma : token.kind ≠ .comma)
    (blank : isBlank c = false) : token.CoversSolid source := by
  have ⟨more, hm⟩ := (lexeme_frontOf h.read).starts
  have split : source.toList = passed ++ item.spelling ++ more := by
    rw [List.append_assoc, hm]
    exact h.split
  refine ⟨String.ofList item.spelling, c, ?_, ?_, blank, ?_⟩
  · rw [h.stops, h.starts]
    exact slice?_eq_some split
  · rw [String.toList_ofList]
    cases spelling : item.spelling with
    | nil => exact absurd spelling item.spelling_ne_nil
    | cons d more =>
      rw [spelling] at hm
      cases hm
      exact .head _
  · rintro rfl
    exact comma (h.kind.trans (kind_lexeme_comma h.read))

/-- The tokens of a source are sliced from it. Its symbols must not be blank if every token is to
cover something solid. -/
theorem sliced_of_tokenize (h : tokenize source = .ok tokens)
    (solid : ¬ bare → ∀ token ∈ tokens, ∀ c, token.kind = .symbol c → isBlank c = false) :
    Sliced source bare tokens where
  ordered := (Scan.runs_of_tokenize h).lossless.ordered.2
  slices token ht := by
    obtain ⟨before, after, split⟩ := List.append_of_mem ht
    have ⟨each, _⟩ := (Scan.runs_of_tokenize h).lossless.cutFrom [] rfl rfl
    obtain ⟨text, slice, -⟩ := (each before token after split).text
    exact Option.isSome_of_eq_some slice
  solid not token ht content comma := by
    obtain ⟨passed, c, rest, item, lexeme⟩ := lexeme_of_tokenize h ht content
    refine lexeme.coversSolid comma ?_
    cases blank : isBlank c with
    | false => rfl
    | true =>
      have kind := lexeme.kind.trans (kind_lexeme_of_isBlank lexeme.read blank)
      exact blank ▸ solid not token ht c kind

end StylusToScss
