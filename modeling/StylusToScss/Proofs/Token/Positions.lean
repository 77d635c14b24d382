import StylusToScss.Proofs.Token.Levels
import StylusToScss.Proofs.Token.Lossless
import StylusToScss.Proofs.Token.Steps

/-!
# Lines and columns

The line and the column of a place follow from the text before it: `lineBreaks` counts the line
breaks in it, and `lastLine` is what stands behind the last one. The scanner keeps both by hand,
step by step. Its steps agree with the text (`Cursor.Accurate`), but for two kinds of line break
that it passes as characters of a line: one that is escaped in a string, and a carriage return in a
block comment with no line feed behind it. Behind neither of them, every token has the line and the
column of its place (`tokenize_positions`).
-/

namespace StylusToScss

open Text

variable {a b passed text body source : List Char}

/-! ## Line breaks of a text -/

/-- Whether a line break ends with the character `c`, behind which `rest` stands: with a line feed,
or with a carriage return that has no line feed behind it. -/
def EndsBreak (c : Char) (rest : List Char) : Prop :=
  c = '\n' ∨ c = '\r' ∧ rest.head? ≠ some '\n'

instance (c : Char) (rest : List Char) : Decidable (EndsBreak c rest) :=
  inferInstanceAs (Decidable (_ ∨ _))

/-- The number of line breaks in a text. A carriage return and a line feed are one. -/
def lineBreaks : List Char → Nat
  | [] => 0
  | c :: rest => (if EndsBreak c rest then 1 else 0) + lineBreaks rest

/-- What stands behind the last line break of a text. -/
def lastLine (text : List Char) : List Char :=
  (text.reverse.takeWhile fun c => c != '\n' && c != '\r').reverse

/-- The line and the column behind a text. -/
def placeBehind (text : List Char) : Nat × Nat := (1 + lineBreaks text, 1 + (lastLine text).length)

/-- The text stands on one line. -/
def Unbroken (text : List Char) : Prop := ∀ c ∈ text, c ≠ '\n' ∧ c ≠ '\r'

/-- Behind every carriage return of the text stands a line feed. -/
def Paired : List Char → Prop
  | [] => True
  | c :: rest => (c = '\r' → rest.head? = some '\n') ∧ Paired rest

instance decidablePaired : (text : List Char) → Decidable (Paired text)
  | [] => inferInstanceAs (Decidable True)
  | _ :: rest => @instDecidableAnd _ _ _ (decidablePaired rest)

/-- No pair of a carriage return and a line feed lies across the place between the texts. -/
def Apart (front rest : List Char) : Prop :=
  ¬ (front.getLast? = some '\r' ∧ rest.head? = some '\n')

theorem Unbroken.append (ha : Unbroken a) (hb : Unbroken b) : Unbroken (a ++ b) :=
  List.forall_mem_append.2 ⟨ha, hb⟩

theorem unbroken_singleton {c : Char} (feed : c ≠ '\n') (return_ : c ≠ '\r') : Unbroken [c] :=
  List.forall_mem_singleton.2 ⟨feed, return_⟩

theorem Unbroken.paired (h : Unbroken text) : Paired text := by
  induction text with
  | nil => trivial
  | cons c rest ih =>
    obtain ⟨⟨-, return_⟩, more⟩ := List.forall_mem_cons.1 h
    exact ⟨fun same => absurd same return_, ih more⟩

/-- What is cut out of a text in front of a character that is no line feed is paired if the text
is. -/
theorem Paired.of_append {c : Char} {rest : List Char} (h : Paired (a ++ (b ++ c :: rest)))
    (other : c ≠ '\n') : Paired b := by
  induction a with
  | cons d a ih => exact ih h.2
  | nil =>
    induction b with
    | nil => trivial
    | cons d b ih =>
      obtain ⟨first, more⟩ := h
      refine ⟨fun return_ => ?_, ih more⟩
      cases b with
      | nil => exact absurd (Option.some.inj (first return_)) other
      | cons e b => exact first return_

theorem lineBreaks_of_unbroken (h : Unbroken text) : lineBreaks text = 0 := by
  induction text with
  | nil => rfl
  | cons c rest ih =>
    obtain ⟨⟨feed, return_⟩, more⟩ := List.forall_mem_cons.1 h
    simp [lineBreaks, EndsBreak, feed, return_, ih more]

theorem lineBreaks_append (apart : Apart a b) :
    lineBreaks (a ++ b) = lineBreaks a + lineBreaks b := by
  induction a with
  | nil => simp [lineBreaks]
  | cons c rest ih =>
    cases rest with
    | nil =>
      -- only here does it depend on the second text whether a break ends
      have same : EndsBreak c b ↔ EndsBreak c [] := by
        refine or_congr_right (and_congr_right fun return_ => ?_)
        have other : b.head? ≠ some '\n' := fun feed => apart ⟨by simp [return_], feed⟩
        simp [other]
      simp [lineBreaks, same]
    | cons d rest =>
      have ih := ih fun ⟨last, feed⟩ => apart ⟨by rwa [List.getLast?_cons_cons], feed⟩
      have same : EndsBreak c (d :: rest ++ b) ↔ EndsBreak c (d :: rest) := Iff.rfl
      simp only [List.cons_append] at ih same ⊢
      rw [lineBreaks, lineBreaks.eq_2 c, ih, if_congr same rfl rfl, Nat.add_assoc]

theorem lastLine_append (h : Unbroken b) : lastLine (a ++ b) = lastLine a ++ b := by
  have all : ∀ c ∈ b.reverse, (c != '\n' && c != '\r') = true := by
    intro c hc
    simpa using h c (List.mem_reverse.1 hc)
  rw [lastLine, List.reverse_append, List.takeWhile_append_of_pos all, List.reverse_append,
    List.reverse_reverse, lastLine]

theorem lastLine_break {c : Char} (isBreak : c = '\n' ∨ c = '\r') : lastLine (a ++ [c]) = [] := by
  rcases isBreak with rfl | rfl <;> simp [lastLine]

theorem Apart.of_unbroken (h : Unbroken a) (some : a ≠ []) (front rest : List Char) :
    Apart (front ++ a) rest := by
  rintro ⟨last, -⟩
  rw [List.getLast?_append, List.getLast?_eq_some_getLast some] at last
  exact (h _ (List.getLast_mem some)).2 (Option.some.inj last)

/-! ## Moving on -/

namespace Cursor

/-- The cursor has the line and the column of the place behind the text that has been passed. -/
structure Accurate (passed : List Char) (cursor : Cursor) : Prop where
  place : (cursor.line, cursor.column) = placeBehind passed
  apart : Apart passed cursor.rest

variable {cursor next first : Cursor}

/-- Characters of one line take a column each. -/
theorem Accurate.along (h : Accurate passed cursor) {n : Nat}
    (unbroken : Unbroken (cursor.rest.take n)) :
    Accurate (passed ++ cursor.rest.take n) (cursor.along n) := by
  by_cases none : cursor.rest.take n = []
  · have rest : (cursor.along n).rest = cursor.rest := by
      have whole := List.take_append_drop n cursor.rest
      rwa [none, List.nil_append] at whole
    refine ⟨?_, ?_⟩
    · rw [none, List.append_nil, ← h.place]
      simp [Cursor.along, none]
    · rw [none, List.append_nil, rest]
      exact h.apart
  · refine ⟨?_, .of_unbroken unbroken none _ _⟩
    have apart : Apart passed (cursor.rest.take n) := by
      rintro ⟨-, feed⟩
      exact (unbroken _ (List.mem_of_head? feed)).1 rfl
    have line : cursor.line = 1 + lineBreaks passed := congrArg Prod.fst h.place
    have column : cursor.column = 1 + (lastLine passed).length := congrArg Prod.snd h.place
    rw [placeBehind, lineBreaks_append apart, lineBreaks_of_unbroken unbroken,
      lastLine_append unbroken, List.length_append]
    simp only [Cursor.along, line, column, Nat.add_zero, Nat.add_assoc]

/-- Behind a line break starts the next line. -/
theorem Accurate.nextLine (h : Accurate passed cursor) (breaks : lineBreak cursor.rest ≠ 0) :
    Accurate (passed ++ cursor.rest.take (lineBreak cursor.rest))
      (cursor.nextLine (lineBreak cursor.rest)) := by
  have line : cursor.line = 1 + lineBreaks passed := congrArg Prod.fst h.place
  have apart := h.apart
  rcases lineBreak_spec breaks with ⟨rest, here, two⟩ | ⟨c, rest, here, isBreak, one⟩
  · rw [here] at apart
    have pair : lineBreaks (passed ++ ['\r', '\n']) = lineBreaks passed + 1 :=
      lineBreaks_append fun ⟨_, feed⟩ => by cases feed
    have ends : lastLine (passed ++ ['\r', '\n']) = [] := by
      rw [show passed ++ ['\r', '\n'] = passed ++ ['\r'] ++ ['\n'] by simp]
      exact lastLine_break (.inl rfl)
    rw [two, here]
    refine ⟨?_, ?_⟩
    · show (cursor.line + 1, 1) = placeBehind (passed ++ ['\r', '\n'])
      rw [placeBehind, pair, ends, line]
      rfl
    · rintro ⟨last, -⟩
      simp at last
  · have single : lineBreaks (passed ++ [c]) = lineBreaks passed + 1 := by
      have counted : lineBreaks [c] = 1 := by rcases isBreak with rfl | rfl <;> rfl
      rw [← counted]
      refine lineBreaks_append fun ⟨last, feed⟩ => apart ⟨last, ?_⟩
      rw [here]
      exact feed
    rw [one]
    have taken : cursor.rest.take 1 = [c] := by rw [here]; rfl
    have left : (cursor.nextLine 1).rest = rest := by rw [Cursor.rest_nextLine, here]; rfl
    refine ⟨?_, ?_⟩
    · show (cursor.line + 1, 1) = placeBehind (passed ++ cursor.rest.take 1)
      rw [taken, placeBehind, single, lastLine_break isBreak, line]
      rfl
    · rw [taken, left]
      rintro ⟨last, feed⟩
      -- a pair would have been passed as one line break
      rw [List.getLast?_concat, Option.some.injEq] at last
      obtain ⟨more, rfl⟩ := List.head?_eq_some_iff.1 feed
      rw [here, last] at one
      cases one

/-- Passing a text as a comment leads to the place behind it, if its line breaks are line feeds and
pairs. -/
theorem foldl_afterChar : ∀ (text passed : List Char), Apart passed text → Paired text →
    text.foldl afterChar (placeBehind passed) = placeBehind (passed ++ text)
  | [], passed, _, _ => by simp
  | c :: rest, passed, apart, ⟨followed, paired⟩ => by
    rw [List.foldl_cons]
    by_cases feed : c = '\n'
    · subst feed
      have counted : lineBreaks (passed ++ ['\n']) = lineBreaks passed + 1 :=
        lineBreaks_append fun ⟨last, _⟩ => apart ⟨last, rfl⟩
      have here : afterChar (placeBehind passed) '\n' = placeBehind (passed ++ ['\n']) := by
        rw [placeBehind, placeBehind, counted, lastLine_break (.inl rfl)]
        rfl
      rw [here, foldl_afterChar rest (passed ++ ['\n']) (by simp [Apart]) paired]
      simp
    · have column : afterChar (placeBehind passed) c =
          (1 + lineBreaks passed, 1 + (lastLine passed).length + 1) := if_neg feed
      by_cases return_ : c = '\r'
      · -- the line feed that has to follow ends the line
        subst return_
        obtain ⟨more, rfl⟩ := List.head?_eq_some_iff.1 (followed rfl)
        have counted : lineBreaks (passed ++ ['\r', '\n']) = lineBreaks passed + 1 :=
          lineBreaks_append fun ⟨_, feed⟩ => by cases feed
        have ends : lastLine (passed ++ ['\r', '\n']) = [] := by
          rw [show passed ++ ['\r', '\n'] = passed ++ ['\r'] ++ ['\n'] by simp]
          exact lastLine_break (.inl rfl)
        have here : afterChar (afterChar (placeBehind passed) '\r') '\n' =
            placeBehind (passed ++ ['\r', '\n']) := by
          rw [column, placeBehind, counted, ends]
          rfl
        rw [List.foldl_cons, here,
          foldl_afterChar more (passed ++ ['\r', '\n']) (by simp [Apart]) paired.2]
        simp
      · have unbroken := unbroken_singleton feed return_
        have counted : lineBreaks (passed ++ [c]) = lineBreaks passed := by
          rw [lineBreaks_append fun ⟨_, h⟩ => feed (Option.some.inj h),
            lineBreaks_of_unbroken unbroken]
          rfl
        have here : afterChar (placeBehind passed) c = placeBehind (passed ++ [c]) := by
          rw [column, placeBehind, counted, lastLine_append unbroken, List.length_append]
          rfl
        have apart : Apart (passed ++ [c]) rest := fun ⟨last, _⟩ => return_ (by simpa using last)
        rw [here, foldl_afterChar rest (passed ++ [c]) apart paired]
        simp

theorem Accurate.spaces (h : Accurate passed cursor) :
    Accurate (passed ++ cursor.rest.take (spaces cursor.rest))
      (cursor.along (spaces cursor.rest)) := by
  refine h.along ?_
  rw [take_spaces]
  intro c hc
  have blank := List.mem_takeWhile_imp hc
  constructor <;> rintro rfl <;> cases blank

theorem Accurate.lineComment (h : Accurate passed cursor) :
    Accurate (passed ++ cursor.rest.take (lineComment cursor.rest))
      (cursor.along (lineComment cursor.rest)) := by
  refine h.along ?_
  rw [StylusToScss.lineComment, ← List.prefix_iff_eq_take.1 (List.takeWhile_prefix _)]
  intro c hc
  have inLine := List.mem_takeWhile_imp hc
  simpa using inLine

/-- The text between the marks of the block comment that starts here. -/
theorem blockComment_ok (here : cursor.rest = '/' :: '*' :: text)
    (closed : cursor.blockComment = .ok next) :
    ∃ n body, next = cursor.across n ∧ ¬ ['*', '/'] <:+: body ∧
      cursor.rest.take n = '/' :: '*' :: body ++ ['*', '/'] := by
  unfold Cursor.blockComment at closed
  split at closed
  · next n ends =>
    cases closed
    rw [here] at ends
    obtain ⟨body, taken, inside⟩ := commentEnd?_spec ends
    refine ⟨n + 2, body, rfl, inside, ?_⟩
    rw [here, List.take_succ_cons, List.take_succ_cons]
    simpa using taken
  · cases closed

/-- A block comment leads to the place behind it, if its line breaks are line feeds and pairs. -/
theorem Accurate.across (h : Accurate passed cursor) {n : Nat} (paired : Paired body)
    (taken : cursor.rest.take n = '/' :: '*' :: body ++ ['*', '/']) :
    Accurate (passed ++ cursor.rest.take n) (cursor.across n) := by
  have opening : Unbroken ['/', '*'] := by simp [Unbroken]
  have closing : Unbroken ['*', '/'] := by simp [Unbroken]
  have split : cursor.rest.take n = ['/', '*'] ++ (body ++ ['*', '/']) := taken
  refine ⟨?_, ?_⟩
  · show (cursor.rest.take n).foldl afterChar (cursor.line, cursor.column) = _
    rw [h.place, split, List.foldl_append, List.foldl_append,
      foldl_afterChar _ passed (by simp [Apart]) opening.paired,
      foldl_afterChar body _ (by simp [Apart]) paired,
      foldl_afterChar _ _ (by simp [Apart]) closing.paired]
    simp
  · rw [taken, ← List.append_assoc]
    exact .of_unbroken closing (List.cons_ne_nil _ _) _ _

end Cursor

/-! ## Lexemes on one line -/

namespace Lexeme

theorem unbroken_of_isDigit (digits : ∀ c ∈ text, c.isDigit = true) : Unbroken text := by
  intro c hc
  have digit := digits c hc
  constructor <;> rintro rfl <;> cases digit

theorem unbroken_nameTail (text : List Char) : Unbroken (nameTail text) := by
  fun_induction nameTail text with
  | case1 | case3 => exact List.forall_mem_nil _
  | case2 c rest continues ih =>
    refine List.forall_mem_cons.2 ⟨?_, ih⟩
    constructor <;> rintro rfl <;> simp [isAlphanumeric] at continues

theorem unbroken_address {inner : List Char} (h : address text = (inner, true)) :
    Unbroken inner := by
  simp only [address, Prod.mk.injEq] at h
  obtain ⟨rfl, -⟩ := h
  intro c hc
  have inLine := List.mem_takeWhile_imp hc
  simp only [Bool.and_eq_true, bne_iff_ne] at inLine
  exact ⟨inLine.1.2, inLine.2⟩

theorem unbroken_of_isNumeral (h : IsNumeral text) : Unbroken text := by
  obtain ⟨sign, whole, fraction, rfl, signed, digits, pointed⟩ := h.parts
  refine .append (.append ?_ (unbroken_of_isDigit digits)) ?_
  · rcases signed with rfl | rfl <;> simp [Unbroken]
  · rcases pointed with rfl | ⟨c, more, rfl, digits⟩
    · exact nofun
    · exact List.forall_mem_cons.2 ⟨by decide, unbroken_of_isDigit digits⟩

theorem unbroken_unit (text : List Char) : Unbroken (unit text) := by
  unfold unit
  split
  · simp [Unbroken]
  · intro c hc
    have letter := List.mem_takeWhile_imp hc
    constructor <;> rintro rfl <;> cases letter

theorem unbroken_markedWord (text : List Char) : Unbroken (markedWord text) := by
  intro c hc
  have marked := List.mem_takeWhile_imp hc
  constructor <;> rintro rfl <;> simp [isAlphanumeric] at marked

theorem unbroken_fixed? {spelling : List Char} {kind : Kind}
    (h : fixed? text = some (spelling, kind)) : Unbroken spelling := by
  have all : ∀ entry ∈ Kind.fixedKinds, entry.1.all fun c => c != '\n' && c != '\r' := by decide
  have solid := List.all_eq_true.1 (all _ (List.mem_of_find?_eq_some h))
  intro c hc
  simpa using solid c hc

end Lexeme

open Lexeme in
/-- A lexeme stands on one line, unless it is a string with a line break in it. -/
theorem unbroken_lexeme {previous : Option Char} {c : Char} {rest : List Char} {item : Lexeme}
    (h : lexeme previous c rest = .ok item) (solid : Unbroken [c])
    (strings : ∀ value quote, item.kind = .string value quote → Unbroken value.toList) :
    Unbroken item.spelling := by
  have starts {tail : List Char} (more : Unbroken tail) : Unbroken (c :: tail) := solid.append more
  unfold lexeme at h
  split at h
  · unfold string at h
    split at h
    · next value _ =>
      cases h
      have inside := strings _ _ rfl
      rw [String.toList_ofList] at inside
      exact starts (inside.append solid)
    · cases h
    · cases h
  · split at h
    · unfold number at h
      split at h
      · cases h
      · cases h
        exact (unbroken_of_isNumeral (numeral_isNumeral _)).append (unbroken_unit _)
    · split at h
      · unfold name at h
        simp only at h
        split at h
        · split at h
          · next inner closed =>
            cases h
            exact .append (.append (starts (unbroken_nameTail rest)) (unbroken_address closed))
              (by simp [Unbroken])
          · cases h
        · cases h
          exact starts (unbroken_nameTail rest)
      · split at h
        · cases h
          exact starts (unbroken_markedWord rest)
        · split at h
          · next fixed =>
            cases h
            exact unbroken_fixed? fixed
          · split at h
            · cases h
            · cases h
              exact solid

/-! ## The places of tokens -/

/-- A block comment of the source, with `body` between its marks and `passed` before it: the scanner
comes to a place from which only blanks lead to it. -/
structure HasComment (source passed body : List Char) : Prop where
  split : ∃ rest, source = passed ++ ('/' :: '*' :: body ++ ['*', '/']) ++ rest
  closed : ¬ ['*', '/'] <:+: body
  comes : ∃ before scan earlier gap, Scan.Comes source before scan ∧
    scan.cursor.Place source earlier ∧ passed = earlier ++ gap ∧ ∀ c ∈ gap, isSpace c = true

/-- The source holds no line break that is passed as a character of a line: none in a string of the
tokens, and no single carriage return in a block comment before an offset. -/
structure AllCounted (source : List Char) (tokens : List Token) (offset : Nat) : Prop where
  strings : ∀ token ∈ tokens, ∀ value quote, token.kind = .string value quote →
    Unbroken value.toList
  comments : ∀ passed body, HasComment source passed body → byteLength passed < offset →
    Paired body

theorem AllCounted.mono {tokens more : List Token} {offset further : Nat}
    (h : AllCounted source (tokens ++ more) further) (le : offset ≤ further) :
    AllCounted source tokens offset where
  strings token ht := h.strings token (List.mem_append_left _ ht)
  comments passed body has before := h.comments passed body has (Nat.lt_of_lt_of_le before le)

namespace Cursor

/-- The cursor stands behind the text that has been passed, and has the line and column of that
place. -/
structure Stands (source passed : List Char) (cursor : Cursor) : Prop
    extends Place source passed cursor, Accurate passed cursor

variable {cursor next first : Cursor}

theorem Stands.along (h : Stands source passed cursor) {n : Nat}
    (unbroken : Unbroken (cursor.rest.take n)) :
    Stands source (passed ++ cursor.rest.take n) (cursor.along n) :=
  ⟨h.toPlace.along n, h.toAccurate.along unbroken⟩

theorem Stands.spaces (h : Stands source passed cursor) :
    Stands source (passed ++ cursor.rest.take (StylusToScss.spaces cursor.rest))
      (cursor.along (StylusToScss.spaces cursor.rest)) :=
  ⟨h.toPlace.along _, h.toAccurate.spaces⟩

theorem Stands.lineComment (h : Stands source passed cursor) :
    Stands source (passed ++ cursor.rest.take (StylusToScss.lineComment cursor.rest))
      (cursor.along (StylusToScss.lineComment cursor.rest)) :=
  ⟨h.toPlace.along _, h.toAccurate.lineComment⟩

/-- Behind a block comment, if its line breaks are line feeds and pairs. -/
theorem Stands.blockComment (h : Stands source passed cursor)
    (here : cursor.rest = '/' :: '*' :: text) (closed : cursor.blockComment = .ok next)
    (counted : ∀ body rest, ¬ ['*', '/'] <:+: body →
      source = passed ++ ('/' :: '*' :: body ++ ['*', '/']) ++ rest →
      byteLength passed < next.offset → Paired body) :
    ∃ passed', Stands source passed' next := by
  obtain ⟨n, body, rfl, inside, taken⟩ := blockComment_ok here closed
  have place := h.toPlace.across n
  have split : source = passed ++ ('/' :: '*' :: body ++ ['*', '/']) ++ (cursor.across n).rest := by
    rw [← taken]
    exact place.split
  have further : byteLength passed < (cursor.across n).offset := by
    rw [place.offset, taken, byteLength_append]
    have some : byteLength ('/' :: '*' :: body ++ ['*', '/']) ≠ 0 := by
      rw [Ne, byteLength_eq_zero_iff]
      simp
    omega
  exact ⟨_, place, h.toAccurate.across (counted body _ inside split further) taken⟩

end Cursor

namespace Scan

open Cursor

variable {before tokens : List Token} {scan next : Scan}

/-- A step leads from an accurate place to an accurate one, if it passes no line break that is not
counted. -/
theorem Step.stands (step : Step scan tokens next) (comes : Comes source before scan)
    (h : Stands source passed scan.cursor)
    (counted : AllCounted source (before ++ tokens) next.cursor.offset) :
    ∃ passed', Stands source passed' next.cursor := by
  have comment {gap body rest : List Char} (blank : ∀ c ∈ gap, isSpace c = true)
      (inside : ¬ ['*', '/'] <:+: body)
      (split : source = passed ++ gap ++ ('/' :: '*' :: body ++ ['*', '/']) ++ rest)
      (earlier : byteLength (passed ++ gap) < next.cursor.offset) : Paired body :=
    counted.comments _ body
      ⟨⟨rest, split⟩, inside, before, scan, passed, gap, comes, h.toPlace, rfl, blank⟩ earlier
  cases step with
  | @line first _ _ _ indented opened =>
    have blank := h.spaces
    have spaced : ∀ c ∈ scan.cursor.rest.take (spaces scan.cursor.rest), isSpace c = true := by
      rw [take_spaces]
      exact fun c hc => List.mem_takeWhile_imp hc
    rw [(startLine_cursor opened).1] at comment ⊢
    unfold Cursor.indentation at indented
    simp only at indented
    split at indented
    · cases indented
      exact ⟨_, blank.lineComment⟩
    · next here =>
      obtain ⟨behind, closed, rfl⟩ := map_eq_ok_iff.1 indented
      obtain ⟨_, stands⟩ := blank.blockComment here closed fun body rest inside split earlier =>
        comment spaced inside split (Nat.lt_of_lt_of_le earlier (offset_along_le _ _))
      exact ⟨_, stands.spaces⟩
    · cases indented
      exact ⟨_, blank⟩
  | space here _ blank =>
    refine ⟨_, h.along ?_⟩
    rw [here]
    refine List.forall_mem_singleton.2 ?_
    constructor <;> rintro rfl <;> cases blank
  | newline _ breaks broken =>
    rcases breakLine_cases broken with ⟨-, -, rfl⟩ | ⟨-, -, rfl⟩
    · exact ⟨_, h.toPlace.nextLine _, h.toAccurate.nextLine breaks⟩
    · exact ⟨_, h.toPlace.nextLine _, h.toAccurate.nextLine breaks⟩
  | commentLine => exact ⟨_, h.lineComment⟩
  | commentBlock here _ closed =>
    refine h.blockComment here closed fun body rest inside split earlier => ?_
    exact @comment [] body rest nofun inside (by simpa using split) (by simpa using earlier)
  | @lexeme c rest item here _ solid read =>
    have strings : ∀ value quote, item.kind = .string value quote → Unbroken value.toList :=
      counted.strings _ (List.mem_append_right _ (.head _))
    have first : Unbroken [c] := by
      refine List.forall_mem_singleton.2 ?_
      constructor <;> rintro rfl
      · cases solid.2
      · have := solid.2
        unfold lineBreak at this
        split at this <;> simp_all
    have front := List.prefix_iff_eq_take.1 (lexeme_frontOf read).starts
    refine ⟨_, h.along ?_⟩
    rw [here, ← front]
    exact unbroken_lexeme read first strings

/-- A scan that the scanner comes to past no line break that is not counted stands at an accurate
place. -/
theorem Comes.stands (h : Comes source before scan)
    (counted : AllCounted source before scan.cursor.offset) :
    ∃ passed, Stands source passed scan.cursor := by
  induction h with
  | start => exact ⟨[], ⟨rfl, rfl, rfl⟩, rfl, by simp [Apart]⟩
  | step comes here stepped ih =>
    have step := step_ok here stepped
    obtain ⟨_, stands⟩ := ih (counted.mono step.offset_le)
    exact step.stands comes stands counted

end Scan

/-! ## Tokens -/

/-- The token has the line and the column of the place where it starts. -/
def Token.Placed (source : String) (token : Token) : Prop :=
  ∃ passed, slice? source 0 token.span.start = some passed ∧
    (token.span.line, token.span.column) = placeBehind passed.toList

theorem placed_token {source : String} {cursor : Cursor} (h : cursor.Stands source.toList passed)
    (kind : Kind) (n : Nat) : (cursor.token kind n).Placed source := by
  refine ⟨String.ofList passed, ?_, ?_⟩
  · have slice := @slice?_eq_some source [] _ _ h.split
    rwa [byteLength, Nat.zero_add, ← h.offset] at slice
  · rw [String.toList_ofList]
    exact h.place

/-- A token that a step cuts has the line and column of its place, if the scanner has counted every
line break before it. Only the token of a line break stands at the end of what it covers. -/
theorem Scan.Step.placed {source : String} {before ahead behind : List Token} {token : Token}
    {scan next : Scan} (step : Step scan (ahead ++ token :: behind) next)
    (comes : Comes source.toList before scan) (content : token.kind ≠ .newline)
    (counted : AllCounted source.toList before token.span.start) : token.Placed source := by
  generalize cut : ahead ++ token :: behind = tokens at step
  have mem : token ∈ tokens := cut ▸ List.mem_append_right _ (.head _)
  cases step with
  | @line first _ _ starts indented opened =>
    have placed (kind : Kind) (at_ : token = first.token kind 0) (marks : ∀ t ∈ tokens,
        ∀ value quote, t.kind ≠ .string value quote) : token.Placed source := by
      have start : token.span.start = first.offset := by rw [at_]; rfl
      have counted : AllCounted source.toList (before ++ tokens) next.cursor.offset := by
        rw [(startLine_cursor opened).1, ← start]
        refine ⟨fun t ht value quote string => ?_, counted.comments⟩
        rcases List.mem_append.1 ht with ht | ht
        · exact counted.strings t ht value quote string
        · exact absurd string (marks t ht value quote)
      have step : Step scan tokens next := .line starts indented opened
      obtain ⟨_, stands⟩ := comes.stands (counted.mono step.offset_le)
      obtain ⟨_, stands⟩ := step.stands comes stands counted
      rw [(startLine_cursor opened).1] at stands
      rw [at_]
      exact placed_token stands kind 0
    cases startLine_ok opened with
    | empty => cases mem
    | indent =>
      refine placed .indent (List.mem_singleton.1 mem) ?_
      rintro t ht value quote string
      rw [List.mem_singleton.1 ht] at string
      cases string
    | dedents =>
      refine placed .dedent (List.eq_of_mem_replicate mem) ?_
      rintro t ht value quote string
      rw [List.eq_of_mem_replicate ht] at string
      cases string
  | newline _ _ broken =>
    rcases breakLine_cases broken with ⟨-, rfl, -⟩ | ⟨-, rfl, -⟩
    · rw [List.mem_singleton.1 mem] at content
      exact absurd rfl content
    · cases mem
  | lexeme =>
    rw [List.mem_singleton.1 mem] at counted ⊢
    obtain ⟨_, stands⟩ := comes.stands counted
    exact placed_token stands _ _
  | space | commentLine | commentBlock => cases mem

/-- A token of a source has the line and the column of the place where it starts, unless it ends a
line, or a line break stands before it that is passed as a character of a line: one in a string, or
a single carriage return in a block comment. -/
theorem tokenize_positions {source : String} {before after : List Token} {token : Token}
    (h : tokenize source = .ok (before ++ token :: after)) (content : token.kind ≠ .newline)
    (counted : AllCounted source.toList before token.span.start) :
    ∃ passed, slice? source 0 token.span.start = some passed ∧
      token.span.line = 1 + lineBreaks passed.toList ∧
      token.span.column = 1 + (lastLine passed.toList).length := by
  have placed : token.Placed source := by
    obtain ⟨body, last, comes, ended, split⟩ := Scan.Comes.of_tokenize h
    have atEnd {marks : List Token} (whole : before = body ++ marks) (mem : token ∈ last.closing) :
        token.Placed source := by
      have at_ : ∃ kind, token = last.cursor.token kind 0 := by
        rcases List.mem_append.1 mem with mem | mem
        · exact ⟨_, List.eq_of_mem_replicate mem⟩
        · exact ⟨_, List.mem_singleton.1 mem⟩
      obtain ⟨kind, rfl⟩ := at_
      rw [whole] at counted
      obtain ⟨_, stands⟩ := comes.stands (counted.mono (Nat.le_refl _))
      exact placed_token stands kind 0
    rcases List.append_eq_append_iff.1 split with ⟨inside, cut, tokens⟩ | ⟨marks, whole, closing⟩
    · cases inside with
      | nil =>
        refine @atEnd [] (by simpa using cut.symm) ?_
        rw [← List.nil_append last.closing, ← tokens]
        exact .head _
      | cons first inside =>
        cases tokens
        obtain ⟨earlier, ahead, behind, from_, next, c, text, rfl, comes, here, step⟩ :=
          comes.cuts cut
        exact (Scan.step_ok here step).placed comes content (counted.mono (Nat.le_refl _))
    · refine atEnd whole ?_
      rw [closing]
      exact List.mem_append_right _ (.head _)
  obtain ⟨passed, slice, place⟩ := placed
  exact ⟨passed, slice, congrArg Prod.fst place, congrArg Prod.snd place⟩

/-- The comment holds a line break of two characters, and the string stands behind it. -/
theorem positions_comment :
    tokenize "a(/*\r\n*/ \"s\",\n b) é c" = .ok ([⟨.ident "a", ⟨0, 1, 1, 1⟩⟩,
        ⟨.leftParen, ⟨1, 2, 1, 2⟩⟩, ⟨.string "s" '"', ⟨9, 12, 2, 4⟩⟩, ⟨.comma, ⟨12, 13, 2, 7⟩⟩,
        ⟨.ident "b", ⟨15, 16, 3, 2⟩⟩, ⟨.rightParen, ⟨16, 17, 3, 3⟩⟩,
        ⟨.ident "é", ⟨18, 20, 3, 5⟩⟩] ++
      ⟨.ident "c", ⟨21, 22, 3, 7⟩⟩ :: [⟨.endOfInput, ⟨22, 22, 3, 8⟩⟩]) ∧
    ∃ passed, slice? "a(/*\r\n*/ \"s\",\n b) é c" 0 21 = some passed ∧
      3 = 1 + lineBreaks passed.toList ∧ 7 = 1 + (lastLine passed.toList).length := by
  have cut : tokenize "a(/*\r\n*/ \"s\",\n b) é c" = .ok ([⟨.ident "a", ⟨0, 1, 1, 1⟩⟩,
        ⟨.leftParen, ⟨1, 2, 1, 2⟩⟩, ⟨.string "s" '"', ⟨9, 12, 2, 4⟩⟩, ⟨.comma, ⟨12, 13, 2, 7⟩⟩,
        ⟨.ident "b", ⟨15, 16, 3, 2⟩⟩, ⟨.rightParen, ⟨16, 17, 3, 3⟩⟩,
        ⟨.ident "é", ⟨18, 20, 3, 5⟩⟩] ++
      ⟨.ident "c", ⟨21, 22, 3, 7⟩⟩ :: [⟨.endOfInput, ⟨22, 22, 3, 8⟩⟩]) := by
    decide +kernel
  refine ⟨cut, tokenize_positions cut (by decide) ⟨?_, ?_⟩⟩
  · intro token ht value quote string
    simp only [List.mem_cons, List.not_mem_nil, or_false] at ht
    rcases ht with rfl | rfl | rfl | rfl | rfl | rfl | rfl <;> cases string
    simpa using unbroken_singleton (c := 's') (by decide) (by decide)
  · intro passed body has _
    obtain ⟨rest, split⟩ := has.split
    have paired : Paired "a(/*\r\n*/ \"s\",\n b) é c".toList := by decide
    rw [split] at paired
    have whole : Paired (passed ++ ['/', '*'] ++ (body ++ '*' :: '/' :: rest)) := by
      simpa using paired
    exact whole.of_append (by decide)

end StylusToScss
