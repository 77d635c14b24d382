import StylusToScss.Proofs.Token.Delimited
import StylusToScss.Proofs.Token.Levels
import StylusToScss.Proofs.Token.Steps

/-!
# What stands behind a place

Up to a place in a source, the scanner reads the same tokens whatever stands behind it, as long as
that belongs to nothing in front of it (`Scan.Comes.exchange`). So a text is cut up to its end where
another one follows, and up to a comment where there are blanks in its place.
-/

namespace StylusToScss

/-- One text may stand in the place of another: neither continues a lexeme in front of it, and the
second one does not start a comment with it. -/
structure Exchanges (tail tail' : List Char) : Prop where
  delimits : Delimits tail
  delimits' : Delimits tail'
  uncommented : tail'.head? ≠ some '/'

/-- Where nothing is left in front of the texts, a line ends at the second one if it does at the
first. -/
def EndsAlike (left tail tail' : List Char) : Prop := left = [] → AtLineEnd tail → AtLineEnd tail'

variable {tail tail' r r' : List Char} {n : Nat}

/-- What stands in front of the texts breaks the line together with both of them, or with
neither. -/
def Unpaired (front tail tail' : List Char) : Prop :=
  front.getLast? = some '\r' → (tail'.head? = some '\n' ↔ tail.head? = some '\n')

theorem Unpaired.suffix {front : List Char} (h : Unpaired front tail tail') (suffix : r <:+ front) :
    Unpaired r tail tail' := by
  intro last
  refine h ?_
  obtain ⟨before, rfl⟩ := suffix
  rw [List.getLast?_append, last]
  rfl

/-! ## What is read up to the place -/

section
variable {p : Char → Bool}

theorem takeWhile_of_stops (h : ∀ c ∈ tail.head?, p c = false) : tail.takeWhile p = [] := by
  cases tail with
  | nil => rfl
  | cons c tail => exact List.takeWhile_cons_of_neg (by simp [h c rfl])

/-- A run of characters that ends before the place, or stops there. -/
theorem takeWhile_exchange (inside : ((r ++ tail).takeWhile p).length ≤ r.length)
    (stops : r.drop ((r ++ tail).takeWhile p).length = [] → ∀ c ∈ tail'.head?, p c = false) :
    (r ++ tail').takeWhile p = (r ++ tail).takeWhile p := by
  rw [List.takeWhile_append] at inside stops ⊢
  rw [List.takeWhile_append]
  by_cases whole : (r.takeWhile p).length = r.length
  · rw [if_pos whole] at inside stops ⊢
    rw [List.length_append] at inside
    have none : tail.takeWhile p = [] := List.length_eq_zero_iff.1 (by omega)
    rw [if_pos whole, none, takeWhile_of_stops (stops (List.drop_of_length_le (by simp)))]
  · rw [if_neg whole, if_neg whole]

end

theorem spaces_exchange (inside : spaces (r ++ tail) ≤ r.length)
    (stops : r.drop (spaces (r ++ tail)) = [] → AtLineEnd tail') :
    spaces (r ++ tail') = spaces (r ++ tail) := by
  refine congrArg List.length (takeWhile_exchange inside fun whole c hc => ?_)
  rcases stops whole c hc with rfl | rfl <;> rfl

theorem lineComment_exchange (inside : lineComment (r ++ tail) ≤ r.length)
    (alike : EndsAlike (r.drop (lineComment (r ++ tail))) tail tail') :
    lineComment (r ++ tail') = lineComment (r ++ tail) := by
  refine congrArg List.length (takeWhile_exchange inside fun whole c hc => ?_)
  have ends : AtLineEnd tail := by
    have behind : AtLineEnd ((r ++ tail).drop (lineComment (r ++ tail))) := atLineEnd_dropWhile _
    have whole : r.drop (lineComment (r ++ tail)) = [] := whole
    rwa [List.drop_append_of_le_length inside, whole] at behind
  rcases alike whole ends c hc with rfl | rfl <;> rfl

/-- A block comment ends with the first closing mark. -/
theorem commentEnd?_body {body : List Char} (inside : ¬ ['*', '/'] <:+: body) (rest : List Char) :
    commentEnd? (body ++ '*' :: '/' :: rest) = some (body.length + 2) := by
  induction body with
  | nil => rfl
  | cons c body ih =>
    rw [List.cons_append, commentEnd?.eq_3]
    · rw [ih fun closes => inside (closes.trans (List.infix_cons (List.infix_refl _)))]
      rfl
    · rintro more rfl here
      cases body with
      | nil => cases here
      | cons d body =>
        cases here
        exact inside ⟨[], body, rfl⟩

theorem commentEnd?_exchange (closed : commentEnd? (r ++ tail) = some n) (inside : n ≤ r.length)
    (tail' : List Char) : commentEnd? (r ++ tail') = some n := by
  obtain ⟨body, taken, unclosed⟩ := commentEnd?_spec closed
  rw [List.take_append_of_le_length inside] at taken
  have length := congrArg List.length taken
  rw [List.length_take_of_le inside, List.length_append] at length
  rw [← List.take_append_drop n r, taken, List.append_assoc, List.append_assoc, length]
  exact commentEnd?_body unclosed _

theorem commentEnd?_le {text : List Char} (closed : commentEnd? text = some n) :
    n ≤ text.length := by
  fun_induction commentEnd? text generalizing n with
  | case1 => cases closed
  | case2 rest =>
    cases closed
    exact Nat.le_add_left _ _
  | case3 c rest other ih =>
    obtain ⟨m, hm, rfl⟩ := Option.map_eq_some_iff.1 closed
    exact Nat.succ_le_succ (ih hm)

theorem lineBreak_le (text : List Char) : lineBreak text ≤ text.length := by
  unfold lineBreak
  split <;> simp

theorem lineBreak_return (rest : List Char) :
    lineBreak ('\r' :: rest) = if rest.head? = some '\n' then 2 else 1 := by
  unfold lineBreak
  split
  · next here =>
    cases here
    rfl
  · next other here =>
    cases here
    rw [if_neg]
    rw [List.head?_eq_some_iff]
    rintro ⟨more, rfl⟩
    exact other more rfl
  · next here => cases here
  · next other _ => exact absurd rfl (other rest)

theorem atLineEnd_iff {text : List Char} : AtLineEnd text ↔ text = [] ∨ lineBreak text ≠ 0 := by
  cases text with
  | nil => simp [AtLineEnd]
  | cons c rest =>
    by_cases feed : c = '\n'
    · subst feed
      simp [AtLineEnd, lineBreak]
    · by_cases ret : c = '\r'
      · subst ret
        rw [lineBreak_return]
        simp only [AtLineEnd, List.head?_cons]
        split <;> simp
      · rw [lineBreak_cons feed ret]
        simp [AtLineEnd, feed, ret]

theorem lineBreak_exchange (unpaired : Unpaired r tail tail') (some : r ≠ []) :
    lineBreak (r ++ tail') = lineBreak (r ++ tail) := by
  obtain ⟨c, r, rfl⟩ := List.exists_cons_of_ne_nil some
  rw [List.cons_append, List.cons_append]
  by_cases ret : c = '\r'
  · subst ret
    rw [lineBreak_return, lineBreak_return]
    cases r with
    | nil => simp only [List.nil_append, unpaired rfl]
    | cons d r => rfl
  · by_cases feed : c = '\n'
    · subst feed
      rfl
    · rw [lineBreak_cons feed ret, lineBreak_cons feed ret]

theorem startsComment_exchange (h : Exchanges tail tail') (plain : ¬ StartsComment (r ++ tail)) :
    ¬ StartsComment (r ++ tail') := by
  match r with
  | [] =>
    rintro ⟨rest, here | here⟩ <;> exact h.uncommented (by rw [← List.nil_append tail', here]; rfl)
  | [c] =>
    rw [List.singleton_append, startsComment_cons_iff]
    rintro ⟨-, second | second⟩
    · exact h.uncommented second
    · have other := h.delimits' _ second
      simp [delimiters] at other
  | c :: d :: r =>
    rw [List.cons_append, List.cons_append, startsComment_cons_iff] at plain ⊢
    exact plain

/-! ## The last part of a text -/

/-- What is left of a text, if that is at least its last part. -/
theorem exists_append_of_suffix {text : List Char} (suffix : text <:+ r ++ tail)
    (longer : tail.length ≤ text.length) : ∃ r', r' <:+ r ∧ text = r' ++ tail := by
  obtain ⟨r', rfl⟩ := List.suffix_of_suffix_length_le (List.suffix_append r tail) suffix longer
  obtain ⟨before, split⟩ := suffix
  rw [← List.append_assoc] at split
  exact ⟨r', ⟨before, List.append_cancel_right split⟩, rfl⟩

theorem suffix_of_append (suffix : r ++ tail <:+ r' ++ tail) : r <:+ r' := by
  obtain ⟨before, split⟩ := suffix
  rw [← List.append_assoc] at split
  exact ⟨before, List.append_cancel_right split⟩

theorem drop_of_left {text : List Char} (here : text = r ++ tail) (some : n ≤ text.length)
    (left : text.drop n = r' ++ tail) : n ≤ r.length ∧ r' = r.drop n := by
  have lengths := congrArg List.length left
  rw [List.length_drop, List.length_append] at lengths
  rw [here, List.length_append] at lengths some
  have inside : n ≤ r.length := by omega
  rw [here, List.drop_append_of_le_length inside] at left
  exact ⟨inside, (List.append_cancel_right left).symm⟩

/-- The first two characters stand before the place. -/
theorem cons_of_append {c d : Char} {text : List Char} (here : r ++ tail = c :: d :: text)
    (two : 2 ≤ r.length) : ∃ more, r = c :: d :: more := by
  match r, two with
  | _ :: _ :: more, _ =>
    cases here
    exact ⟨more, rfl⟩

/-! ## Places -/

namespace Cursor

/-- The same place, with another text left. -/
def facing (cursor : Cursor) (text : List Char) : Cursor := { cursor with rest := text }

variable {cursor next : Cursor}

section
variable (here : cursor.rest = r ++ tail) (inside : n ≤ r.length)
include here inside

theorem along_facing : (cursor.facing (r ++ tail')).along n =
    (cursor.along n).facing (r.drop n ++ tail') := by
  unfold facing along
  simp only [here, List.take_append_of_le_length inside, List.drop_append_of_le_length inside]

theorem across_facing : (cursor.facing (r ++ tail')).across n =
    (cursor.across n).facing (r.drop n ++ tail') := by
  unfold across
  rw [along_facing here inside]
  simp only [facing, here, List.take_append_of_le_length inside]

theorem nextLine_facing : (cursor.facing (r ++ tail')).nextLine n =
    (cursor.nextLine n).facing (r.drop n ++ tail') := by
  unfold nextLine
  rw [along_facing here inside]
  rfl

theorem token_facing (kind : Kind) :
    (cursor.facing (r ++ tail')).token kind n = cursor.token kind n := by
  unfold token span
  rw [along_facing here inside]
  rfl

theorem breakToken_facing : (cursor.facing (r ++ tail')).breakToken n = cursor.breakToken n := by
  unfold breakToken
  rw [along_facing here inside]
  rfl

end

/-- A line comment that ends at the place or before it. -/
theorem lineComment_facing {text : List Char} (alike : EndsAlike r' tail tail')
    (here : cursor.rest = r ++ tail) (comment : cursor.rest = '/' :: '/' :: text)
    (left : (cursor.along (lineComment cursor.rest)).rest = r' ++ tail) :
    (∃ more, r = '/' :: '/' :: more) ∧
      (cursor.facing (r ++ tail')).along (lineComment (r ++ tail')) =
        (cursor.along (lineComment cursor.rest)).facing (r' ++ tail') := by
  have some : lineComment cursor.rest ≤ cursor.rest.length := (List.takeWhile_prefix _).length_le
  obtain ⟨inside, rfl⟩ := drop_of_left here some left
  have two : 2 ≤ lineComment cursor.rest := by
    rw [comment]
    exact Nat.le_add_left _ _
  refine ⟨cons_of_append (here.symm.trans comment) (Nat.le_trans two inside), ?_⟩
  rw [lineComment_exchange (here ▸ inside) (here ▸ alike), ← here, along_facing here inside]

/-- A block comment that ends at the place or before it. -/
theorem blockComment_facing {text : List Char} (here : cursor.rest = r ++ tail)
    (comment : cursor.rest = '/' :: '*' :: text) (closed : cursor.blockComment = .ok next)
    (left : next.rest = r' ++ tail) (tail' : List Char) :
    (∃ more, r = '/' :: '*' :: more) ∧
      (cursor.facing (r ++ tail')).blockComment = .ok (next.facing (r' ++ tail')) := by
  unfold blockComment at closed ⊢
  split at closed
  · next n found =>
    cases closed
    have le := commentEnd?_le found
    have some : n + 2 ≤ cursor.rest.length := by
      rw [comment] at le ⊢
      exact Nat.succ_le_succ (Nat.succ_le_succ le)
    obtain ⟨inside, rfl⟩ := drop_of_left here some left
    have two : 2 ≤ r.length := by omega
    refine ⟨cons_of_append (here.symm.trans comment) two, ?_⟩
    rw [here, List.drop_append_of_le_length two] at found
    have found' := commentEnd?_exchange found (by rw [List.length_drop]; omega) tail'
    rw [← List.drop_append_of_le_length two] at found'
    rw [show (cursor.facing (r ++ tail')).rest = r ++ tail' from rfl, found']
    exact congrArg Except.ok (across_facing here inside)
  · cases closed

theorem suffix_blockComment (closed : cursor.blockComment = .ok next) :
    next.rest <:+ cursor.rest := by
  unfold blockComment at closed
  split at closed
  · cases closed
    exact List.drop_suffix _ _
  · cases closed

theorem spaces_le (text : List Char) : spaces text ≤ text.length :=
  (List.takeWhile_prefix _).length_le

theorem behindSpaces_facing (here : cursor.rest = r ++ tail)
    (left : cursor.behindSpaces.rest = r' ++ tail) (ended : r' = [] → AtLineEnd tail') :
    spaces (r ++ tail') = spaces (r ++ tail) ∧
      (cursor.facing (r ++ tail')).behindSpaces = cursor.behindSpaces.facing (r' ++ tail') := by
  obtain ⟨inside, rfl⟩ := drop_of_left here (spaces_le _) left
  have same : spaces (r ++ tail') = spaces (r ++ tail) :=
    spaces_exchange (here ▸ inside) (here ▸ ended)
  refine ⟨same, ?_⟩
  show (cursor.facing (r ++ tail')).along (spaces (r ++ tail')) = _
  rw [same, ← here, along_facing here inside]
  rfl

/-- The first thing on a line is found before the place, or the line is at its end there. -/
theorem indentation_facing (h : Exchanges tail tail') (alike : EndsAlike r' tail tail')
    (here : cursor.rest = r ++ tail) (indented : cursor.indentation = .ok next)
    (left : next.rest = r' ++ tail)
    (ended : r' = [] → AtLineEnd tail) :
    spaces (r ++ tail') = spaces (r ++ tail) ∧
      (cursor.facing (r ++ tail')).indentation = .ok (next.facing (r' ++ tail')) := by
  have length : tail.length ≤ next.rest.length := by
    rw [left, List.length_append]
    exact Nat.le_add_left _ _
  have spaced : cursor.behindSpaces.rest <:+ r ++ tail := by
    rw [← here]
    exact List.drop_suffix _ _
  rcases comment_cases cursor.behindSpaces.rest with ⟨text, comment⟩ | ⟨text, comment⟩ | plain
  · rw [indentation_lineComment comment] at indented
    cases indented
    obtain ⟨r₂, -, here'⟩ := exists_append_of_suffix spaced
      (Nat.le_trans length (List.drop_suffix _ cursor.behindSpaces.rest).length_le)
    obtain ⟨⟨more, starts⟩, passed⟩ := lineComment_facing alike here' comment left
    obtain ⟨same, behind⟩ := behindSpaces_facing here here' (by rw [starts]; rintro ⟨⟩)
    have comment' : (cursor.facing (r ++ tail')).behindSpaces.rest =
        '/' :: '/' :: (more ++ tail') := by
      rw [behind, starts]
      rfl
    refine ⟨same, ?_⟩
    rw [indentation_lineComment comment', behind]
    exact congrArg Except.ok passed
  · rw [indentation_blockComment comment] at indented
    obtain ⟨closed, found, rfl⟩ := map_eq_ok_iff.1 indented
    have longer : tail.length ≤ closed.rest.length :=
      Nat.le_trans length (List.drop_suffix _ _).length_le
    have shorter := length_rest_blockComment found
    obtain ⟨r₂, -, here₂⟩ := exists_append_of_suffix spaced
      (Nat.le_trans longer (Nat.le_of_lt shorter))
    obtain ⟨r₃, -, here₃⟩ := exists_append_of_suffix (here₂ ▸ suffix_blockComment found) longer
    obtain ⟨⟨more, starts⟩, found'⟩ := blockComment_facing here₂ comment found here₃ tail'
    obtain ⟨same, behind⟩ := behindSpaces_facing here here₂ (by rw [starts]; rintro ⟨⟩)
    obtain ⟨-, behind'⟩ := behindSpaces_facing here₃ left fun none => alike none (ended none)
    have comment' : (cursor.facing (r ++ tail')).behindSpaces.rest =
        '/' :: '*' :: (more ++ tail') := by
      rw [behind, starts]
      rfl
    refine ⟨same, ?_⟩
    rw [indentation_blockComment comment', behind, found']
    exact congrArg Except.ok behind'
  · rw [indentation_plain plain] at indented
    cases indented
    obtain ⟨same, behind⟩ := behindSpaces_facing here left fun none => alike none (ended none)
    refine ⟨same, ?_⟩
    have plain' : ¬ StartsComment (cursor.facing (r ++ tail')).behindSpaces.rest := by
      rw [left] at plain
      rw [behind]
      exact startsComment_exchange h plain
    rw [indentation_plain plain', behind]

end Cursor

/-! ## Scans -/

namespace Scan

/-- The same scan, with another text left. -/
def facing (scan : Scan) (text : List Char) : Scan :=
  { scan with cursor := scan.cursor.facing text }

variable {scan next : Scan} {tokens : List Token}

theorem startLine_facing {first : Cursor} (alike : EndsAlike r' tail tail')
    (here : scan.cursor.rest = r ++ tail) (unpaired : Unpaired r' tail tail')
    (started : scan.startLine first = .ok (tokens, next)) (left : first.rest = r' ++ tail)
    (ended : r' = [] → AtLineEnd tail) (width : spaces (r ++ tail') = spaces (r ++ tail)) :
    (scan.facing (r ++ tail')).startLine (first.facing (r' ++ tail')) =
      .ok (tokens, next.facing (r' ++ tail')) := by
  have empty : r' ++ tail' = [] ∨ lineBreak (r' ++ tail') ≠ 0 ↔
      r' ++ tail = [] ∨ lineBreak (r' ++ tail) ≠ 0 := by
    by_cases none : r' = []
    · subst none
      rw [List.nil_append, List.nil_append, ← atLineEnd_iff, ← atLineEnd_iff]
      exact ⟨fun _ => ended rfl, alike rfl⟩
    · rw [lineBreak_exchange unpaired none]
      simp [none]
  unfold startLine at started ⊢
  simp only [facing, Cursor.facing, here, left, width, empty] at started ⊢
  by_cases atEnd : r' ++ tail = [] ∨ lineBreak (r' ++ tail) ≠ 0
  · rw [if_pos atEnd] at started ⊢
    cases started
    rfl
  · rw [if_neg atEnd] at started ⊢
    split at started
    · cases started
      rfl
    · cases started

/-- Inside a line, every step takes a character. -/
theorem some_of_step {c : Char} {rest : List Char} (inside : scan.lineStart = false)
    (here : scan.cursor.rest = r ++ tail) (cut : scan.cursor.rest = c :: rest)
    (stepped : scan.step c rest = .ok (tokens, next)) (left : next.cursor.rest = r' ++ tail) :
    r ≠ [] := by
  rintro rfl
  have less := (step_ok cut stepped).size_lt
  rw [size, size, here, left, inside, List.length_append] at less
  simp only [List.nil_append, Bool.toNat_false] at less
  omega

theorem breakLine_facing (here : scan.cursor.rest = r ++ tail) (inside : n ≤ r.length) :
    (scan.facing (r ++ tail')).breakLine n =
      ((scan.breakLine n).1, (scan.breakLine n).2.facing (r.drop n ++ tail')) := by
  unfold breakLine
  show (if scan.parens = 0 then _ else _) = _
  split
  · simp only [facing, Cursor.nextLine_facing here inside, Cursor.breakToken_facing here inside]
  · simp only [facing, Cursor.nextLine_facing here inside]

/-- A lexeme that ends at the place or before it. -/
theorem step_exchange_lexeme {c : Char} (h : Exchanges tail tail') (inside : scan.lineStart = false)
    (here : scan.cursor.rest = c :: r ++ tail) (solid : isSpace c = false)
    (unbroken : lineBreak (c :: (r ++ tail)) = 0)
    (same : lineBreak (c :: (r ++ tail')) = lineBreak (c :: (r ++ tail)))
    (plain : ¬ StartsComment (c :: (r ++ tail)))
    (stepped : scan.step c (r ++ tail) = .ok (tokens, next))
    (left : next.cursor.rest = r' ++ tail) :
    (scan.facing (c :: r ++ tail')).step c (r ++ tail') =
      .ok (tokens, next.facing (r' ++ tail')) := by
  have inside' : (scan.facing (c :: r ++ tail')).lineStart = false := inside
  have plain' : ¬ StartsComment (c :: (r ++ tail')) := startsComment_exchange (r := c :: r) h plain
  have previous : (scan.facing (c :: r ++ tail')).cursor.previous = scan.cursor.previous := rfl
  rw [step_lexeme_eq inside solid unbroken plain] at stepped
  cases read : lexeme scan.cursor.previous c (r ++ tail) with
  | error e =>
    rw [read] at stepped
    cases stepped
  | ok item =>
    rw [read] at stepped
    cases stepped
    have some : item.spelling.length ≤ scan.cursor.rest.length := by
      rw [here]
      exact (lexeme_frontOf read).1.length_le
    obtain ⟨le, rfl⟩ := drop_of_left here some left
    have read' : lexeme scan.cursor.previous c (r ++ tail') = .ok item :=
      lexeme_replace h.delimits h.delimits' read le
    rw [step_lexeme_eq inside' solid (same.trans unbroken) plain', previous, read']
    simp only [facing, Cursor.along_facing here le, Cursor.token_facing here le]

/-- A step inside a line that ends at the place or before it. -/
theorem step_exchange_inside {c : Char} {rest : List Char} (h : Exchanges tail tail')
    (alike : EndsAlike r' tail tail') (inside : scan.lineStart = false)
    (here : scan.cursor.rest = c :: r ++ tail)
    (unpaired : Unpaired (c :: r) tail tail') (cut : rest = r ++ tail)
    (stepped : scan.step c rest = .ok (tokens, next)) (left : next.cursor.rest = r' ++ tail) :
    (scan.facing (c :: r ++ tail')).step c (r ++ tail') =
      .ok (tokens, next.facing (r' ++ tail')) := by
  have inside' : (scan.facing (c :: r ++ tail')).lineStart = false := inside
  have break' : lineBreak (c :: (r ++ tail')) = lineBreak (c :: rest) := by
    rw [cut]
    exact lineBreak_exchange unpaired (List.cons_ne_nil c r)
  have here' : scan.cursor.rest = c :: rest := by rw [here, cut]; rfl
  cases front_cases c rest with
  | space blank =>
    rw [step_space inside blank] at stepped
    cases stepped
    have some : 1 ≤ scan.cursor.rest.length := by
      rw [here']
      exact Nat.le_add_left _ _
    obtain ⟨le, rfl⟩ := drop_of_left here some left
    rw [step_space inside' blank]
    refine congrArg (fun cursor => Except.ok ([], { scan with cursor := cursor })) ?_
    exact Cursor.along_facing here le
  | newline breaks =>
    rw [step_newline inside breaks] at stepped
    have broken : scan.breakLine (lineBreak (c :: rest)) = (tokens, next) := Except.ok.inj stepped
    have some : lineBreak (c :: rest) ≤ scan.cursor.rest.length := by
      rw [here']
      exact lineBreak_le _
    have behind := rest_breakLine scan (lineBreak (c :: rest))
    rw [broken] at behind
    obtain ⟨le, rfl⟩ := drop_of_left here some (behind.symm.trans left)
    rw [step_newline inside' (break'.symm ▸ breaks), break', breakLine_facing here le, broken]
  | @lineComment rest =>
    rw [step_lineComment inside, ← here'] at stepped
    cases stepped
    obtain ⟨⟨more, two⟩, passed⟩ := Cursor.lineComment_facing alike here here' left
    cases two
    refine (step_lineComment inside').trans ?_
    exact congrArg (fun cursor => Except.ok ([], { scan with cursor := cursor })) passed
  | @blockComment rest =>
    rw [step_blockComment inside] at stepped
    obtain ⟨behind, closed, same⟩ := map_eq_ok_iff.1 stepped
    cases same
    obtain ⟨⟨more, two⟩, closed'⟩ := Cursor.blockComment_facing here here' closed left tail'
    cases two
    refine (step_blockComment inside').trans ?_
    exact congrArg (Except.map _) closed'
  | lexeme solid unbroken plain =>
    subst cut
    exact step_exchange_lexeme h inside here solid unbroken break' plain stepped left

/-- A step at the start of a line that ends at the place or before it. -/
theorem step_exchange_line {c c' : Char} {rest rest' : List Char} (h : Exchanges tail tail')
    (alike : EndsAlike r' tail tail') (starts : scan.lineStart = true)
    (here : scan.cursor.rest = r ++ tail)
    (unpaired : Unpaired r' tail tail') (stepped : scan.step c rest = .ok (tokens, next))
    (left : next.cursor.rest = r' ++ tail) (ended : r' = [] → AtLineEnd tail) :
    (scan.facing (r ++ tail')).step c' rest' = .ok (tokens, next.facing (r' ++ tail')) := by
  have starts' : (scan.facing (r ++ tail')).lineStart = true := starts
  rw [step_line starts] at stepped
  obtain ⟨first, indented, opened⟩ := bind_eq_ok_iff.1 stepped
  rw [(startLine_cursor opened).1] at left
  obtain ⟨width, indented'⟩ := Cursor.indentation_facing h alike here indented left ended
  rw [step_line starts']
  exact bind_eq_ok_iff.2
    ⟨_, indented', startLine_facing alike here unpaired opened left ended width⟩

theorem Comes.suffix {source : List Char} {before : List Token} (comes : Comes source before scan) :
    scan.cursor.rest <:+ source := by
  obtain ⟨passed, place⟩ := comes.reached.place
  rw [place.split]
  exact List.suffix_append _ _

/-- Only a step at the start of a line can stop short of a character. -/
theorem Step.length_le (step : Step scan tokens next) :
    next.cursor.rest.length ≤ scan.cursor.rest.length := by
  have less := step.size_lt
  have := Bool.toNat_le scan.lineStart
  unfold size at less
  omega

/-- Where a line starts, a line break has been cut last. -/
theorem Comes.atLineStart {source : List Char} {before : List Token}
    (comes : Comes source before scan) (starts : scan.lineStart = true) : AtLineStart before := by
  have reached : Reached (String.ofList source).toList before scan := by
    rw [String.toList_ofList]
    exact comes.reached
  exact (reached.leveled.starting starts).1

/-- At the start of a line, a step only opens or closes levels. -/
theorem Comes.startsLine_step {source : List Char} {before : List Token} {c : Char}
    {rest : List Char} (comes : Comes source before scan)
    (stepped : scan.step c rest = .ok (tokens, next)) (starts : scan.lineStart = true) :
    StartsLine (before ++ tokens) := by
  refine ⟨before, tokens, rfl, comes.atLineStart starts, ?_⟩
  rw [step_line starts] at stepped
  obtain ⟨first, -, opened⟩ := bind_eq_ok_iff.1 stepped
  cases startLine_ok opened with
  | empty => exact nofun
  | indent =>
    intro token ht
    cases List.mem_singleton.1 ht
    exact .inl rfl
  | dedents =>
    intro token ht
    rw [List.eq_of_mem_replicate ht]
    exact .inr rfl

/-- The tokens before a place are cut whatever stands there, if the line ends at it, or if the first
token of the line is one of them. -/
theorem Comes.exchange {front : List Char} {before : List Token} (h : Exchanges tail tail')
    (alike : EndsAlike r tail tail') (some : r = [] → tail' ≠ [])
    (unpaired : Unpaired front tail tail')
    (comes : Comes (front ++ tail) before scan)
    (left : scan.cursor.rest = r ++ tail) (ended : r = [] → AtLineEnd tail ∨ ¬ StartsLine before) :
    Comes (front ++ tail') before (scan.facing (r ++ tail')) := by
  generalize text : front ++ tail = source at comes
  induction comes generalizing r with
  | start =>
    have whole : front ++ tail = r ++ tail := text.trans left
    cases List.append_cancel_right whole
    exact .start
  | @step before tokens scan next c rest comes here stepped ih =>
    have step := step_ok here stepped
    have suffix : r <:+ front := suffix_of_append (left ▸ text ▸ (comes.step here stepped).suffix)
    have longer : tail.length ≤ scan.cursor.rest.length := by
      have shorter := step.length_le
      rw [left, List.length_append] at shorter
      omega
    obtain ⟨r₀, suffix₀, here₀⟩ := exists_append_of_suffix (text ▸ comes.suffix) longer
    cases starts : scan.lineStart with
    | true =>
      have ended : r = [] → AtLineEnd tail := fun none =>
        (ended none).resolve_right fun inner => inner (comes.startsLine_step stepped starts)
      have nothing : r₀ = [] → r = [] := by
        rintro rfl
        have shorter := step.length_le
        rw [left, here₀, List.length_append] at shorter
        exact List.length_eq_zero_iff.1 (by simpa using shorter)
      have before' := ih (fun none => alike (nothing none)) (fun none => some (nothing none)) here₀
        fun none => .inl (ended (nothing none))
      have left₀ : r₀ ++ tail' ≠ [] := by
        intro none
        obtain ⟨first, last⟩ := List.append_eq_nil_iff.1 none
        exact some (nothing first) last
      obtain ⟨c', rest', here'⟩ := List.exists_cons_of_ne_nil left₀
      exact before'.step here'
        (step_exchange_line h alike starts here₀ (unpaired.suffix suffix) stepped left ended)
    | false =>
      have ahead := some_of_step starts here₀ here stepped left
      obtain ⟨c', r₀, rfl⟩ := List.exists_cons_of_ne_nil ahead
      obtain ⟨rfl, cut⟩ := List.cons.inj (here.symm.trans here₀)
      exact (ih (by rintro ⟨⟩) (by rintro ⟨⟩) here₀ nofun).step rfl
        (step_exchange_inside h alike starts here₀ (unpaired.suffix suffix₀) cut stepped left)

end Scan
end StylusToScss
