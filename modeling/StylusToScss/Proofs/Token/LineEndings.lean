import Mathlib.Data.List.Forall2
import StylusToScss.Proofs.Token.Delimited
import StylusToScss.Proofs.Token.Levels
import StylusToScss.Proofs.Token.Steps

/-!
# Line endings

A source that ends its lines with carriage returns and line feeds is cut into the same tokens, on
the same lines, as the source with line feeds alone (`tokenize_windows`). The proof runs the scanner
on both: it stands at places that correspond (`Scan.Windows`), and each step leads to such places
again. One thing tells the two apart: a line break that is escaped in a string. A backslash keeps
one character, which is the whole line break in one source and half of it in the other.
-/

namespace StylusToScss

/-- The text with a carriage return in front of every line feed. -/
def windows : List Char → List Char
  | [] => []
  | c :: rest => if c = '\n' then '\r' :: '\n' :: windows rest else c :: windows rest

/-- A line feed is escaped in the string with this quote whose inside starts here. -/
def EscapesBreak (quote : Char) : List Char → Prop
  | [] => False
  | c :: rest =>
    c ≠ quote ∧
      if c = '\\' then
        match rest with
        | [] => False
        | d :: rest => d = '\n' ∨ EscapesBreak quote rest
      else c ≠ '\n' ∧ EscapesBreak quote rest

section
variable {text rest : List Char} {c : Char}

theorem windows_cons (other : c ≠ '\n') : windows (c :: rest) = c :: windows rest := if_neg other

theorem windows_append (a b : List Char) : windows (a ++ b) = windows a ++ windows b := by
  induction a with
  | nil => rfl
  | cons c a ih =>
    rw [List.cons_append, windows, windows, ih]
    split <;> rfl

/-- A text of one line has no line end to write. -/
theorem windows_of_not_mem (h : '\n' ∉ text) : windows text = text := by
  induction text with
  | nil => rfl
  | cons c text ih =>
    rw [List.mem_cons, not_or] at h
    rw [windows_cons (Ne.symm h.1), ih h.2]

theorem windows_eq_nil_iff : windows text = [] ↔ text = [] := by
  cases text with
  | nil => simp [windows]
  | cons c text =>
    rw [windows]
    split <;> simp

/-- The line of a text up to its end, and the rest. -/
theorem split_line (text : List Char) :
    ∃ line more, text = line ++ more ∧ '\n' ∉ line ∧ AtLineEnd more := by
  refine ⟨_, _, (List.takeWhile_append_dropWhile (p := (· != '\n'))).symm, ?_, ?_⟩
  · intro mem
    simpa using List.mem_takeWhile_imp mem
  · intro c hc
    have last := List.head?_dropWhile_not (· != '\n') text
    rw [Option.mem_def.1 hc] at last
    exact .inl (by simpa using last)

theorem atLineEnd_windows (h : AtLineEnd text) : AtLineEnd (windows text) := by
  cases text with
  | nil => exact h
  | cons c text =>
    rintro d hd
    rw [windows] at hd
    split at hd
    · cases hd
      exact .inr rfl
    · cases hd
      exact h c rfl

end

/-! ## Places that correspond -/

namespace Cursor

/-- The places correspond: the text that is left differs in its line endings only. -/
structure Windows (cursor cursor' : Cursor) : Prop where
  plain : '\r' ∉ cursor.rest
  rest : cursor'.rest = windows cursor.rest
  previous : cursor'.previous = cursor.previous
  line : cursor'.line = cursor.line
  column : cursor'.column = cursor.column

variable {cursor cursor' : Cursor} {n n' : Nat}

theorem Windows.fault {ε : Type} (h : cursor.Windows cursor') (cause : ε) :
    cursor.fault cause = cursor'.fault cause := by
  rw [Cursor.fault, Cursor.fault, h.line, h.column]

theorem Windows.ended_iff (h : cursor.Windows cursor') : cursor'.rest = [] ↔ cursor.rest = [] := by
  rw [h.rest, windows_eq_nil_iff]

/-- What is passed in one source is what is passed in the other, with its line endings. -/
structure Passes (cursor cursor' : Cursor) (n n' : Nat) : Prop where
  passed : cursor'.rest.take n' = windows (cursor.rest.take n)
  left : cursor'.rest.drop n' = windows (cursor.rest.drop n)

theorem Windows.passes (h : cursor.Windows cursor') (n : Nat) :
    Passes cursor cursor' n (windows (cursor.rest.take n)).length := by
  have split : cursor'.rest = windows (cursor.rest.take n) ++ windows (cursor.rest.drop n) := by
    rw [← windows_append, List.take_append_drop, h.rest]
  constructor
  · rw [split, List.take_left]
  · rw [split, List.drop_left]

theorem getLast?_windows (text : List Char) : (windows text).getLast? = text.getLast? := by
  induction text with
  | nil => rfl
  | cons c text ih =>
    cases text with
    | nil =>
      rw [windows]
      split
      · next feed => rw [feed]; rfl
      · rfl
    | cons d text =>
      rw [windows, List.getLast?_cons_cons, ← ih]
      have some : windows (d :: text) ≠ [] := by
        rw [Ne, windows_eq_nil_iff]
        simp
      obtain ⟨e, more, here⟩ := List.exists_cons_of_ne_nil some
      rw [here]
      split
      · rw [List.getLast?_cons_cons, List.getLast?_cons_cons]
      · rw [List.getLast?_cons_cons]

theorem foldl_afterChar_windows (text : List Char) (place : Nat × Nat) :
    (windows text).foldl afterChar place = text.foldl afterChar place := by
  induction text generalizing place with
  | nil => rfl
  | cons c text ih =>
    rw [windows]
    split
    · next feed =>
      subst feed
      simp only [List.foldl_cons, ih]
      rfl
    · rw [List.foldl_cons, List.foldl_cons, ih]

theorem Windows.previous_along (h : cursor.Windows cursor') (passes : Passes cursor cursor' n n') :
    (cursor'.along n').previous = (cursor.along n).previous := by
  show (cursor'.rest.take n').getLast?.or _ = _
  rw [passes.passed, getLast?_windows, h.previous]
  rfl

theorem not_mem_drop {c : Char} {text : List Char} (h : c ∉ text) (n : Nat) : c ∉ text.drop n :=
  fun mem => h (List.mem_of_mem_drop mem)

theorem Windows.across (h : cursor.Windows cursor') (passes : Passes cursor cursor' n n') :
    (cursor.across n).Windows (cursor'.across n') := by
  have place : (cursor'.rest.take n').foldl afterChar (cursor'.line, cursor'.column) =
      (cursor.rest.take n).foldl afterChar (cursor.line, cursor.column) := by
    rw [passes.passed, foldl_afterChar_windows, h.line, h.column]
  exact ⟨not_mem_drop h.plain n, passes.left, h.previous_along passes, congrArg Prod.fst place,
    congrArg Prod.snd place⟩

theorem Windows.nextLine (h : cursor.Windows cursor') (passes : Passes cursor cursor' n n') :
    (cursor.nextLine n).Windows (cursor'.nextLine n') :=
  ⟨not_mem_drop h.plain n, passes.left, h.previous_along passes, congrArg Nat.succ h.line, rfl⟩

/-- Characters of one line are passed alike. -/
theorem Windows.passes_line (h : cursor.Windows cursor') (inLine : '\n' ∉ cursor.rest.take n) :
    Passes cursor cursor' n n := by
  have passes := h.passes n
  rw [windows_of_not_mem inLine] at passes
  by_cases le : n ≤ cursor.rest.length
  · rwa [List.length_take_of_le le] at passes
  · have all := List.take_of_length_le (Nat.le_of_not_le le)
    rw [all] at inLine
    have same : cursor'.rest = cursor.rest := by rw [h.rest, windows_of_not_mem inLine]
    constructor
    · rw [same, all, windows_of_not_mem inLine]
    · rw [same, List.drop_eq_nil_of_le (Nat.le_of_not_le le)]
      rfl

theorem Windows.along (h : cursor.Windows cursor') (inLine : '\n' ∉ cursor.rest.take n) :
    (cursor.along n).Windows (cursor'.along n) := by
  have passes := h.passes_line inLine
  refine ⟨not_mem_drop h.plain n, passes.left, h.previous_along passes, h.line, ?_⟩
  show cursor'.column + (cursor'.rest.take n).length = cursor.column + (cursor.rest.take n).length
  rw [passes.passed, windows_of_not_mem inLine, h.column]

end Cursor

/-! ## What is read of both texts -/

section
variable {text rest : List Char} {c : Char}

theorem takeWhile_windows {p : Char → Bool} (feed : p '\n' = false) (ret : p '\r' = false)
    (text : List Char) : (windows text).takeWhile p = text.takeWhile p := by
  induction text with
  | nil => rfl
  | cons c text ih =>
    rw [windows]
    split
    · next same => simp [same, feed, ret]
    · rw [List.takeWhile_cons, List.takeWhile_cons, ih]

theorem spaces_windows (text : List Char) : spaces (windows text) = spaces text :=
  congrArg List.length (takeWhile_windows rfl rfl text)

theorem lineComment_windows (text : List Char) : lineComment (windows text) = lineComment text :=
  congrArg List.length (takeWhile_windows rfl rfl text)

/-- A line break is a line feed where the text has no carriage return. -/
theorem lineBreak_of_plain (plain : '\r' ∉ text) (breaks : lineBreak text ≠ 0) :
    ∃ rest, text = '\n' :: rest ∧ lineBreak text = 1 ∧ lineBreak (windows text) = 2 := by
  rcases lineBreak_spec breaks with ⟨rest, rfl, -⟩ | ⟨c, rest, rfl, rfl | rfl, one⟩
  · exact absurd (.head _) plain
  · exact ⟨rest, rfl, one, rfl⟩
  · exact absurd (.head _) plain

theorem lineBreak_windows (plain : '\r' ∉ text) :
    lineBreak (windows text) ≠ 0 ↔ lineBreak text ≠ 0 := by
  cases text with
  | nil => rfl
  | cons c rest =>
    by_cases feed : c = '\n'
    · subst feed
      simp [windows, lineBreak]
    · have ret : c ≠ '\r' := by
        rintro rfl
        exact plain (.head _)
      rw [windows_cons feed, lineBreak_cons feed ret, lineBreak_cons feed ret]

theorem head?_windows {d : Char} (feed : d ≠ '\n') (ret : d ≠ '\r') :
    (windows text).head? = some d ↔ text.head? = some d := by
  cases text with
  | nil => rfl
  | cons c text =>
    rw [windows]
    split
    · next same =>
      subst same
      simp [Ne.symm feed, Ne.symm ret]
    · rfl

/-- The end of a block comment is its end with the other line endings. -/
theorem commentEnd?_windows (text : List Char) :
    commentEnd? (windows text) =
      (commentEnd? text).map fun n => (windows (text.take n)).length := by
  fun_induction commentEnd? text with
  | case1 => rfl
  | case2 rest => rfl
  | case3 c rest other ih =>
    have mapped : (commentEnd? (windows rest)).map (· + (windows [c]).length) =
        ((commentEnd? rest).map (· + 1)).map fun n => (windows ((c :: rest).take n)).length := by
      rw [ih, Option.map_map, Option.map_map]
      refine congrArg (Option.map · _) (funext fun n => ?_)
      have split := windows_append [c] (rest.take n)
      have count := congrArg List.length split
      rw [List.length_append, Nat.add_comm] at count
      exact count.symm
    rw [← mapped, windows]
    split
    · next feed =>
      subst feed
      simp [commentEnd?, windows, Function.comp_def]
    · next feed =>
      rw [windows_cons feed, commentEnd?.eq_3]
      · rfl
      · intro more star slash
        have first := @head?_windows rest '/' (by decide) (by decide)
        rw [slash] at first
        obtain ⟨more', here⟩ := List.head?_eq_some_iff.1 (first.1 rfl)
        exact other more' star here

end

/-! ## Comments and indentation -/

namespace Cursor

variable {cursor cursor' : Cursor}

theorem Windows.blockComment {text : List Char} (h : cursor.Windows cursor')
    (here : cursor.rest = '/' :: '*' :: text) :
    Agree Windows Eq cursor.blockComment cursor'.blockComment := by
  have here' : cursor'.rest = '/' :: '*' :: windows text := by
    rw [h.rest, here, windows_cons (by decide), windows_cons (by decide)]
  unfold Cursor.blockComment
  rw [here, here', List.drop_succ_cons, List.drop_one, List.tail_cons, List.drop_succ_cons,
    List.drop_one, List.tail_cons, commentEnd?_windows]
  cases commentEnd? text with
  | none => exact h.fault _
  | some n =>
    refine h.across ?_
    have passes := h.passes (n + 2)
    rw [here] at passes
    exact passes

theorem not_mem_spaces (text : List Char) : '\n' ∉ text.take (spaces text) := by
  intro mem
  rw [take_spaces] at mem
  cases List.mem_takeWhile_imp mem

theorem Windows.behindSpaces (h : cursor.Windows cursor') :
    cursor.behindSpaces.Windows cursor'.behindSpaces := by
  unfold Cursor.behindSpaces
  rw [h.rest, spaces_windows]
  exact h.along (not_mem_spaces _)

theorem Windows.lineComment (h : cursor.Windows cursor') :
    (cursor.along (StylusToScss.lineComment cursor.rest)).Windows
      (cursor'.along (StylusToScss.lineComment cursor'.rest)) := by
  rw [h.rest, lineComment_windows]
  refine h.along fun mem => ?_
  rw [StylusToScss.lineComment, ← List.prefix_iff_eq_take.1 (List.takeWhile_prefix _)] at mem
  cases List.mem_takeWhile_imp mem

theorem startsComment_windows {text : List Char} :
    StartsComment (windows text) ↔ StartsComment text := by
  cases text with
  | nil => rfl
  | cons c text =>
    by_cases feed : c = '\n'
    · subst feed
      simp [windows, startsComment_cons_iff]
    · rw [windows_cons feed, startsComment_cons_iff, startsComment_cons_iff,
        head?_windows (by decide) (by decide), head?_windows (by decide) (by decide)]

theorem Windows.indentation (h : cursor.Windows cursor') :
    Agree Windows Eq cursor.indentation cursor'.indentation := by
  have first := h.behindSpaces
  rcases comment_cases cursor.behindSpaces.rest with ⟨text, here⟩ | ⟨text, here⟩ | plain
  · have here' : cursor'.behindSpaces.rest = '/' :: '/' :: windows text := by
      rw [first.rest, here, windows_cons (by decide), windows_cons (by decide)]
    rw [indentation_lineComment here, indentation_lineComment here']
    exact first.lineComment
  · have here' : cursor'.behindSpaces.rest = '/' :: '*' :: windows text := by
      rw [first.rest, here, windows_cons (by decide), windows_cons (by decide)]
    rw [indentation_blockComment here, indentation_blockComment here']
    exact (first.blockComment here).map fun next next' behind => behind.behindSpaces
  · have plain' : ¬ StartsComment cursor'.behindSpaces.rest := by
      rwa [first.rest, startsComment_windows]
    rw [indentation_plain plain, indentation_plain plain']
    exact first

end Cursor

/-! ## Lexemes -/

namespace Lexeme

variable {text : List Char} {quote : Char}

theorem escapesBreak_escape {d : Char} {rest : List Char} (other : '\\' ≠ quote) :
    EscapesBreak quote ('\\' :: d :: rest) ↔ d = '\n' ∨ EscapesBreak quote rest := by
  simp [EscapesBreak, other]

theorem escapesBreak_char {c : Char} {rest : List Char} (other : c ≠ quote) (escape : c ≠ '\\')
    (solid : c ≠ '\n') : EscapesBreak quote (c :: rest) ↔ EscapesBreak quote rest := by
  simp [EscapesBreak.eq_def quote (c :: rest), other, escape, solid]

/-- A quote is no character of a line break. -/
theorem ne_of_isQuote (isQuote : quote = '"' ∨ quote = '\'') : quote ≠ '\n' ∧ quote ≠ '\r' := by
  rcases isQuote with rfl | rfl <;> decide

/-- A string with no escaped line break in it has the same value. -/
theorem stringValue_windows (isQuote : quote = '"' ∨ quote = '\'') (h : ¬ EscapesBreak quote text) :
    stringValue quote (windows text) = stringValue quote text := by
  have solid := ne_of_isQuote isQuote
  fun_induction stringValue quote text with
  | case1 => rfl
  | case2 rest =>
    rw [windows_cons solid.1]
    exact stringValue_quote
  | case3 other =>
    rw [windows_cons (by decide), stringValue.eq_def]
    exact (if_neg other).trans (if_pos rfl)
  | case4 d rest other ih =>
    rw [escapesBreak_escape other, not_or] at h
    rw [windows_cons (by decide), windows_cons h.1, stringValue_escape other, ih h.2]
  | case5 c rest other escape breaks =>
    by_cases feed : c = '\n'
    · subst feed
      exact stringValue_break (Ne.symm solid.2) (.inr rfl)
    · rw [windows_cons feed, stringValue_break other breaks]
  | case6 c rest other escape inLine ih =>
    have feed := (not_or.1 inLine).1
    rw [escapesBreak_char other escape feed] at h
    rw [windows_cons feed, stringValue_char other escape inLine, ih h]

/-- The backslash in front of a line break keeps half of it, and the other half ends the string. -/
theorem stringValue_of_escapesBreak (isQuote : quote = '"' ∨ quote = '\'')
    (h : EscapesBreak quote text) :
    stringValue quote (windows text) = .error .unterminatedString := by
  have solid := ne_of_isQuote isQuote
  fun_induction stringValue quote text with
  | case1 | case3 => simp [EscapesBreak] at h
  | case2 rest => simp [EscapesBreak.eq_def quote (quote :: rest)] at h
  | case4 d rest other ih =>
    rw [windows_cons (by decide), windows]
    split
    · rw [stringValue_escape other, stringValue_break (Ne.symm solid.1) (.inl rfl)]
      rfl
    · next feed =>
      rw [escapesBreak_escape other] at h
      rw [stringValue_escape other, ih (h.resolve_left feed)]
      rfl
  | case5 c rest other escape breaks =>
    have feed : c ≠ '\n' := by
      rintro rfl
      simp [EscapesBreak.eq_def quote ('\n' :: rest)] at h
    rw [windows_cons feed, stringValue_break other breaks]
  | case6 c rest other escape inLine ih =>
    have feed := (not_or.1 inLine).1
    rw [escapesBreak_char other escape feed] at h
    rw [windows_cons feed, stringValue_char other escape inLine, ih h]
    rfl

/-- An unfinished escape ends the text, so there is no line break behind it. -/
theorem not_mem_of_unterminatedEscape
    (h : stringValue quote text = .error .unterminatedEscape) (plain : ¬ EscapesBreak quote text) :
    '\n' ∉ text := by
  fun_induction stringValue quote text with
  | case1 | case2 | case5 => cases h
  | case3 => simp
  | case4 d rest other ih =>
    rw [escapesBreak_escape other, not_or] at plain
    simp [Ne.symm plain.1, ih (map_eq_error_iff.1 h) plain.2]
  | case6 c rest other escape inLine ih =>
    have feed := (not_or.1 inLine).1
    rw [escapesBreak_char other escape feed] at plain
    simp [Ne.symm feed, ih (map_eq_error_iff.1 h) plain]

theorem string_windows (isQuote : quote = '"' ∨ quote = '\'') (h : ¬ EscapesBreak quote text) :
    string quote (windows text) = string quote text := by
  unfold string
  rw [stringValue_windows isQuote h]
  split
  · rfl
  · next escape => rw [windows_of_not_mem (not_mem_of_unterminatedEscape escape h)]
  · rfl

end Lexeme

/-- A lexeme is the same with other line endings behind it, if it is no string with a line break
escaped in it. -/
theorem lexeme_windows {previous : Option Char} {c : Char} {rest : List Char}
    (plain : ¬ ((c = '"' ∨ c = '\'') ∧ EscapesBreak c rest)) :
    lexeme previous c (windows rest) = lexeme previous c rest := by
  by_cases isQuote : c = '"' ∨ c = '\''
  · unfold lexeme
    rw [if_pos isQuote, if_pos isQuote,
      Lexeme.string_windows isQuote fun escapes => plain ⟨isQuote, escapes⟩]
  · obtain ⟨line, more, rfl, inLine, ended⟩ := split_line rest
    rw [windows_append, windows_of_not_mem inLine,
      lexeme_append_of_atLineEnd (atLineEnd_windows ended) isQuote,
      lexeme_append_of_atLineEnd ended isQuote]

theorem lexeme_of_escapesBreak {previous : Option Char} {c : Char} {rest : List Char}
    (isQuote : c = '"' ∨ c = '\'') (escapes : EscapesBreak c rest) :
    lexeme previous c (windows rest) = .error ⟨.unterminatedString, 0⟩ := by
  unfold lexeme
  rw [if_pos isQuote, Lexeme.string, Lexeme.stringValue_of_escapesBreak isQuote escapes]

/-- A failure inside a lexeme is reported on the line where the lexeme starts. -/
theorem not_mem_of_lexeme_error {previous : Option Char} {c : Char} {rest : List Char} {e : Misread}
    (h : lexeme previous c rest = .error e) (feed : c ≠ '\n')
    (plain : ¬ ((c = '"' ∨ c = '\'') ∧ EscapesBreak c rest)) : '\n' ∉ (c :: rest).take e.after := by
  have atStart (cause : LexFault) : '\n' ∉ (c :: rest).take (⟨cause, 0⟩ : Misread).after := nofun
  unfold lexeme at h
  split at h
  · next isQuote =>
    unfold Lexeme.string at h
    split at h
    · cases h
    · next escape =>
      cases h
      have inLine := Lexeme.not_mem_of_unterminatedEscape escape fun e => plain ⟨isQuote, e⟩
      simp [List.take_of_length_le, Ne.symm feed, inLine]
    · cases h
      exact atStart _
  · split at h
    · unfold Lexeme.number at h
      split at h
      · cases h
        exact atStart _
      · cases h
    · split at h
      · unfold Lexeme.name at h
        simp only at h
        split at h
        · split at h
          · cases h
          · cases h
            exact atStart _
        · cases h
      · split at h
        · cases h
        · split at h
          · cases h
          · split at h
            · cases h
              exact atStart _
            · cases h

/-- What starts a text and the text with other line endings stands on one line. -/
theorem not_mem_of_prefix_windows {front text : List Char} (h : front <+: text)
    (h' : front <+: windows text) : '\n' ∉ front := by
  induction front generalizing text with
  | nil => simp
  | cons c front ih =>
    obtain ⟨more, rfl⟩ := h
    rw [List.cons_append, windows] at h'
    split at h'
    · next feed =>
      subst feed
      cases (List.cons_prefix_cons.1 h').1
    · next feed =>
      have rest := ih (List.prefix_append front more) (List.cons_prefix_cons.1 h').2
      simp [Ne.symm feed, rest]

/-! ## Tokens and scans -/

/-- The tokens are of one kind and start on one line. They start at one column, too, unless they end
a line. -/
structure Token.SamePlace (token token' : Token) : Prop where
  kind : token'.kind = token.kind
  line : token'.span.line = token.span.line
  column : token.kind ≠ .newline → token'.span.column = token.span.column

namespace Scan

/-- The scans correspond: they stand at places that do, and agree on everything else. -/
structure Windows (scan scan' : Scan) : Prop where
  cursor : scan.cursor.Windows scan'.cursor
  levels : scan'.levels = scan.levels
  parens : scan'.parens = scan.parens
  lineStart : scan'.lineStart = scan.lineStart

/-- A string with an escaped line break in it starts here. -/
def AtEscapedBreak (scan : Scan) : Prop :=
  scan.lineStart = false ∧ ∃ quote rest, scan.cursor.rest = quote :: rest ∧
    (quote = '"' ∨ quote = '\'') ∧ EscapesBreak quote rest

/-- Two steps cut tokens of the same places and lead to scans that correspond. -/
abbrev StepsAlike : Except (Located LexFault) (List Token × Scan) →
    Except (Located LexFault) (List Token × Scan) → Prop :=
  Agree (fun cut cut' => List.Forall₂ Token.SamePlace cut.1 cut'.1 ∧ cut.2.Windows cut'.2) Eq

variable {scan scan' : Scan}

theorem samePlace_token {cursor cursor' : Cursor} (h : cursor.Windows cursor') (kind : Kind)
    (n n' : Nat) : (cursor.token kind n).SamePlace (cursor'.token kind n') :=
  ⟨rfl, h.line, fun _ => h.column⟩

theorem Windows.startLine {first first' : Cursor} (h : scan.Windows scan')
    (hf : first.Windows first') : StepsAlike (scan.startLine first) (scan'.startLine first') := by
  have ended : first'.rest = [] ∨ lineBreak first'.rest ≠ 0 ↔
      first.rest = [] ∨ lineBreak first.rest ≠ 0 := by
    rw [hf.ended_iff, hf.rest, lineBreak_windows hf.plain]
  have width : spaces scan'.cursor.rest = spaces scan.cursor.rest := by
    rw [h.cursor.rest, spaces_windows]
  unfold Scan.startLine
  by_cases empty : first.rest = [] ∨ lineBreak first.rest ≠ 0
  · rw [if_pos empty, if_pos (ended.2 empty)]
    exact ⟨.nil, hf, h.levels, h.parens, rfl⟩
  · rw [if_neg empty, if_neg (mt ended.1 empty), width, h.levels]
    simp only
    cases reindent scan.levels (spaces scan.cursor.rest) with
    | none => exact hf.fault _
    | some opened =>
      refine ⟨?_, hf, rfl, h.parens, rfl⟩
      simp only [List.forall₂_map_left_iff, List.forall₂_map_right_iff, List.forall₂_same]
      exact fun kind _ => samePlace_token hf kind 0 0

theorem Windows.breakLine (h : scan.Windows scan') (breaks : lineBreak scan.cursor.rest ≠ 0) :
    StepsAlike (.ok (scan.breakLine (lineBreak scan.cursor.rest)))
      (.ok (scan'.breakLine (lineBreak scan'.cursor.rest))) := by
  obtain ⟨rest, here, one, two⟩ := lineBreak_of_plain h.cursor.plain breaks
  have passes := h.cursor.passes 1
  rw [here] at passes
  have next := h.cursor.nextLine passes
  rw [h.cursor.rest, one, two]
  unfold Scan.breakLine
  rw [h.parens]
  split
  · exact ⟨.cons ⟨rfl, h.cursor.line, absurd rfl⟩ .nil, next, h.levels, rfl, rfl⟩
  · exact ⟨.nil, next, h.levels, rfl, h.lineStart⟩

/-- A step from scans that correspond leads to scans that correspond, or fails in both sources at
the same place, if it does not read a string with an escaped line break. -/
theorem Windows.step {c c' : Char} {rest rest' : List Char} (h : scan.Windows scan')
    (here : scan.cursor.rest = c :: rest) (here' : scan'.cursor.rest = c' :: rest')
    (plain : ¬ scan.AtEscapedBreak) : StepsAlike (scan.step c rest) (scan'.step c' rest') := by
  have same : c' :: rest' = windows (c :: rest) := by rw [← here', h.cursor.rest, here]
  cases starts : scan.lineStart with
  | true =>
    rw [step_line starts, step_line (h.lineStart.trans starts)]
    exact h.cursor.indentation.bind fun first first' hf => h.startLine hf
  | false =>
    have inside := starts
    have inside' := h.lineStart.trans starts
    by_cases feed : c = '\n'
    · subst feed
      have breaks : lineBreak ('\n' :: rest) ≠ 0 := by simp [lineBreak]
      have breaks' : lineBreak (c' :: rest') ≠ 0 := by
        rw [same]
        simp [windows, lineBreak]
      rw [step_newline inside breaks, step_newline inside' breaks', ← here, ← here']
      exact h.breakLine (here ▸ breaks)
    · rw [windows_cons feed] at same
      obtain ⟨rfl, rfl⟩ := List.cons.inj same
      have passed : '\n' ∉ scan.cursor.rest.take 1 := by simp [here, Ne.symm feed]
      cases front_cases c' rest with
      | space blank =>
        rw [step_space inside blank, step_space inside' blank]
        exact ⟨.nil, h.cursor.along passed, h.levels, h.parens, h.lineStart⟩
      | newline breaks =>
        have plain := h.cursor.plain
        rw [here] at plain
        obtain ⟨_, same, -⟩ := lineBreak_of_plain plain breaks
        cases same
        exact absurd rfl feed
      | @lineComment rest =>
        have next := h.cursor.lineComment
        rw [here, here'] at next
        rw [windows_cons (by decide)] at next ⊢
        rw [step_lineComment inside, step_lineComment inside']
        exact ⟨.nil, next, h.levels, h.parens, h.lineStart⟩
      | @blockComment rest =>
        rw [windows_cons (by decide), step_blockComment inside, step_blockComment inside']
        exact (h.cursor.blockComment here).map fun next next' hn =>
          ⟨.nil, hn, h.levels, h.parens, h.lineStart⟩
      | lexeme solid unbroken uncommented =>
        have unbroken' : lineBreak (c' :: windows rest) = 0 := by
          have plain := h.cursor.plain
          rw [here] at plain
          by_contra breaks
          rw [← windows_cons feed, ← Ne, lineBreak_windows plain] at breaks
          exact breaks unbroken
        have uncommented' : ¬ StartsComment (c' :: windows rest) := by
          rwa [← windows_cons feed, Cursor.startsComment_windows]
        have plain : ¬ ((c' = '"' ∨ c' = '\'') ∧ EscapesBreak c' rest) := fun ⟨isQuote, escapes⟩ =>
          plain ⟨inside, c', rest, here, isQuote, escapes⟩
        have same : lexeme scan.cursor.previous c' (windows rest) = lexeme _ c' rest :=
          lexeme_windows plain
        rw [step_lexeme_eq inside solid unbroken uncommented,
          step_lexeme_eq inside' solid unbroken' uncommented', h.cursor.previous, same]
        cases read : lexeme scan.cursor.previous c' rest with
        | error e =>
          have inLine := not_mem_of_lexeme_error read feed plain
          rw [← here] at inLine
          exact (h.cursor.along inLine).fault _
        | ok item =>
          rw [read] at same
          have starts := (lexeme_frontOf read).starts
          have starts' := (lexeme_frontOf same).starts
          rw [← windows_cons feed] at starts'
          have inLine := not_mem_of_prefix_windows starts starts'
          rw [List.prefix_iff_eq_take.1 starts, ← here] at inLine
          refine ⟨.cons (samePlace_token h.cursor _ _ _) .nil, h.cursor.along inLine, h.levels, ?_,
            h.lineStart⟩
          exact congrArg (parensAfter · item.kind) h.parens

/-- A string with an escaped line break is not finished where the line break is a pair. -/
theorem Windows.step_escapedBreak {c : Char} {rest : List Char} (h : scan.Windows scan')
    (here' : scan'.cursor.rest = c :: rest) (escaped : scan.AtEscapedBreak) :
    scan'.step c rest = .error (scan.cursor.fault .unterminatedString) := by
  obtain ⟨inside, quote, text, here, isQuote, escapes⟩ := escaped
  have solid := Lexeme.ne_of_isQuote isQuote
  rw [h.cursor.rest, here, windows_cons solid.1] at here'
  obtain ⟨rfl, rfl⟩ := List.cons.inj here'
  have blank : isSpace quote = false := by rcases isQuote with rfl | rfl <;> rfl
  have plain : ¬ StartsComment (quote :: windows text) := by
    rw [startsComment_cons_iff]
    rcases isQuote with rfl | rfl <;> simp
  rw [step_lexeme_eq (h.lineStart.trans inside) blank (lineBreak_cons solid.1 solid.2) plain,
    lexeme_of_escapesBreak isQuote escapes]
  exact congrArg Except.error (h.cursor.fault _).symm

theorem Windows.closing (h : scan.Windows scan') :
    List.Forall₂ Token.SamePlace scan.closing scan'.closing := by
  have same (kind : Kind) := samePlace_token h.cursor kind 0 0
  unfold Scan.closing
  rw [h.levels]
  refine List.rel_append ?_ (.cons (same _) .nil)
  generalize scan.levels.length = n
  induction n with
  | zero => exact .nil
  | succ n ih => exact .cons (same _) ih

/-- Runs from scans that correspond cut tokens of the same places or fail at the same place, unless
the scanner comes to a string with an escaped line break on the way. -/
theorem Windows.run {source : List Char} {cut cut' : List Token} (h : scan.Windows scan')
    (comes : Comes source cut.reverse scan) (tokens : List.Forall₂ Token.SamePlace cut cut') :
    Agree (List.Forall₂ Token.SamePlace) Eq (scan.run cut) (scan'.run cut') ∨
      ∃ before last, Comes source before last ∧ last.AtEscapedBreak ∧
        scan'.run cut' = .error (last.cursor.fault .unterminatedString) := by
  have exists_step {scan scan' : Scan} {c : Char} {rest : List Char} (h : scan.Windows scan')
      (here : scan.cursor.rest = c :: rest) : ∃ c' rest', scan'.cursor.rest = c' :: rest' :=
    List.exists_cons_of_ne_nil fun ended => by
      rw [h.cursor.ended_iff.1 ended] at here
      cases here
  fun_induction Scan.run scan cut generalizing scan' cut' with
  | case1 scan cut ended =>
    rw [run_done cut' (h.cursor.ended_iff.2 ended)]
    exact .inl (List.rel_append (List.rel_reverse tokens) h.closing)
  | case2 scan cut c rest here fault failed =>
    obtain ⟨c', rest', here'⟩ := exists_step h here
    by_cases escaped : scan.AtEscapedBreak
    · have failed := h.step_escapedBreak here' escaped
      exact .inr ⟨_, scan, comes, escaped, run_failed cut' here' failed⟩
    · have step := h.step here here' escaped
      rw [failed] at step
      cases failed' : scan'.step c' rest' with
      | ok _ =>
        rw [failed'] at step
        cases step
      | error fault' =>
        rw [failed'] at step
        cases step
        rw [run_failed cut' here' failed']
        exact .inl rfl
  | case3 scan cut c rest here cutHere next stepped ih =>
    obtain ⟨c', rest', here'⟩ := exists_step h here
    by_cases escaped : scan.AtEscapedBreak
    · have failed := h.step_escapedBreak here' escaped
      exact .inr ⟨_, scan, comes, escaped, run_failed cut' here' failed⟩
    · have step := h.step here here' escaped
      rw [stepped] at step
      cases stepped' : scan'.step c' rest' with
      | error _ =>
        rw [stepped'] at step
        cases step
      | ok behind =>
        rw [stepped'] at step
        obtain ⟨cutHere', next'⟩ := behind
        rw [run_step cut' here' stepped']
        have comes := comes.step here stepped
        rw [← List.reverse_reverse cutHere, ← List.reverse_append] at comes
        exact ih step.2 comes (List.rel_append (List.rel_reverse step.1) tokens)

end Scan

/-- Windows line endings change nothing but in strings: a source without carriage returns is cut
into tokens of the same kinds on the same lines where every line feed has a carriage return in front
of it, or both fail for the same cause at the same place. Only where a string escapes a line break,
the string is unterminated with the other line endings. -/
theorem tokenize_windows {source : String} (plain : '\r' ∉ source.toList) :
    Agree (List.Forall₂ Token.SamePlace) Eq (tokenize source)
        (tokenize (String.ofList (windows source.toList))) ∨
      ∃ before scan, Scan.Comes source.toList before scan ∧ scan.AtEscapedBreak ∧
        tokenize (String.ofList (windows source.toList)) =
          .error (scan.cursor.fault .unterminatedString) := by
  have start : (Scan.start source.toList).Windows (Scan.start (windows source.toList)) :=
    ⟨⟨plain, rfl, rfl, rfl, rfl⟩, rfl, rfl, rfl⟩
  have run := @Scan.Windows.run _ _ _ [] [] start .start .nil
  unfold tokenize
  rwa [String.toList_ofList]

/-- Line ends behind a selector, inside parentheses and in a comment. -/
theorem windows_places : '\r' ∉ "a\n  w(1,\n 2) /*\n*/ \"c\"\n".toList ∧
    ∃ tokens tokens', tokenize "a\n  w(1,\n 2) /*\n*/ \"c\"\n" = .ok tokens ∧
      tokenize "a\r\n  w(1,\r\n 2) /*\r\n*/ \"c\"\r\n" = .ok tokens' ∧
      List.Forall₂ Token.SamePlace tokens tokens' ∧ tokens.length = 13 := by
  have plain : '\r' ∉ "a\n  w(1,\n 2) /*\n*/ \"c\"\n".toList := by decide
  have length : (tokenize "a\n  w(1,\n 2) /*\n*/ \"c\"\n").toOption.map (·.length) = some 13 := by
    decide +kernel
  have closed : (tokenize "a\r\n  w(1,\r\n 2) /*\r\n*/ \"c\"\r\n").isOk = true := by
    decide +kernel
  refine ⟨plain, ?_⟩
  have alike := tokenize_windows plain
  rw [show String.ofList (windows _) = "a\r\n  w(1,\r\n 2) /*\r\n*/ \"c\"\r\n" by decide] at alike
  rcases alike with alike | ⟨_, _, _, _, failed⟩
  · cases cut : tokenize "a\n  w(1,\n 2) /*\n*/ \"c\"\n" with
    | error fault =>
      rw [cut] at length
      cases length
    | ok tokens =>
      cases cut' : tokenize "a\r\n  w(1,\r\n 2) /*\r\n*/ \"c\"\r\n" with
      | error fault =>
        rw [cut'] at closed
        cases closed
      | ok tokens' =>
        rw [cut, cut'] at alike
        rw [cut] at length
        exact ⟨tokens, tokens', rfl, rfl, alike, Option.some.inj length⟩
  · rw [failed] at closed
    cases closed

end StylusToScss
