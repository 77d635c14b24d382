import StylusToScss.Proofs.Token.Exchange
import StylusToScss.Proofs.Token.Lossless
import StylusToScss.Proofs.Token.Moved

/-!
# A comment and blanks in its place

Inside a line, a block comment cuts no token, and neither do as many blanks. So the tokens of a
source are the same with blanks in the place of a comment, at offsets that differ behind it if the
comment holds characters of several bytes (`carries_tokenize_blanked`). What stands behind it must
not be a number with a hyphen, which is a sign behind a blank only.
-/

namespace StylusToScss

variable {front body back : List Char}

/-- A block comment. -/
def comment (body : List Char) : List Char := '/' :: '*' :: (body ++ ['*', '/'])

/-- As many blanks as the comment has characters. -/
def blanks (body : List Char) : List Char := List.replicate (comment body).length ' '

/-- A comment stands between two texts. -/
def commented (front body back : List Char) : List Char := front ++ (comment body ++ back)

/-- Blanks stand in the place of the comment. -/
def blanked (front body back : List Char) : List Char := front ++ (blanks body ++ back)

theorem byteLength_replicate (n : Nat) : byteLength (List.replicate n ' ') = n := by
  induction n with
  | zero => rfl
  | succ n ih =>
    rw [List.replicate_succ, byteLength, ih, Nat.add_comm]
    rfl

theorem length_le_byteLength (text : List Char) : text.length ≤ byteLength text := by
  induction text with
  | nil => rfl
  | cons c text ih =>
    have := c.utf8Size_pos
    rw [List.length_cons, byteLength]
    omega

theorem length_comment (body : List Char) : (comment body).length = body.length + 4 := by
  simp [comment]

theorem comment_append (body back : List Char) :
    comment body ++ back = '/' :: '*' :: (body ++ '*' :: '/' :: back) := by
  simp [comment]

@[simp] theorem length_blanks (body : List Char) :
    (blanks body).length = (comment body).length := List.length_replicate

@[simp] theorem byteLength_blanks (body : List Char) :
    byteLength (blanks body) = (comment body).length := byteLength_replicate _

/-- Offsets behind the blanks are moved as far as the comment is longer, counted in bytes. -/
def pastComment (front body : List Char) : Move where
  offset n :=
    if n ≤ byteLength front then n else n + (byteLength (comment body) - (comment body).length)
  lines := 0
  column _ column := column
  injective := by
    intro a b same
    split at same <;> split at same <;> omega

theorem pastComment_front {n : Nat} (h : n ≤ byteLength front) :
    (pastComment front body).offset n = n := if_pos h

theorem pastComment_back (n : Nat) :
    (pastComment front body).offset (byteLength front + byteLength (blanks body) + n) =
      byteLength front + byteLength (comment body) + n := by
  have some := length_comment body
  have := length_le_byteLength (comment body)
  rw [byteLength_blanks]
  show (if _ then _ else _) = _
  rw [if_neg (by omega)]
  omega

namespace Cursor

variable {cursor : Cursor}

theorem foldl_afterChar_line {text : List Char} (oneLine : '\n' ∉ text) (place : Nat × Nat) :
    text.foldl afterChar place = (place.1, place.2 + text.length) := by
  induction text generalizing place with
  | nil => rfl
  | cons c text ih =>
    obtain ⟨first, rest⟩ := not_or.1 (mt List.mem_cons.2 oneLine)
    rw [List.foldl_cons, ih rest, afterChar, if_neg (Ne.symm first), List.length_cons,
      Nat.add_right_comm, Nat.add_assoc]

theorem along_add (cursor : Cursor) (m n : Nat) :
    (cursor.along m).along n = cursor.along (m + n) := by
  unfold along
  simp only [List.take_add, List.getLast?_append, Option.or_assoc, List.drop_drop,
    byteLength_append, List.length_append, Nat.add_assoc]

/-- Behind the comment is where the place behind the blanks is moved to. -/
theorem moved_comment (here : cursor.rest = comment body ++ back)
    (offset : cursor.offset = byteLength front) (oneLine : '\n' ∉ body)
    (unsigned : ∀ rest, back = '-' :: rest → Lexeme.startsNumber rest = false) :
    ((cursor.facing (blanks body ++ back)).along (comment body).length).Moved
      (pastComment front body) (cursor.across (comment body).length) := by
  have taken : cursor.rest.take (comment body).length = comment body := by
    rw [here, List.take_left' rfl]
  have taken' : (blanks body ++ back).take (comment body).length = blanks body :=
    List.take_left' (length_blanks body)
  have left : (blanks body ++ back).drop (comment body).length = back :=
    List.drop_left' (length_blanks body)
  have start : ((cursor.facing (blanks body ++ back)).along (comment body).length).offset =
      byteLength front + byteLength (blanks body) := by
    show cursor.offset + byteLength ((blanks body ++ back).take _) = _
    rw [taken', offset]
  have feedless : '\n' ∉ comment body := by simp [comment, oneLine]
  have place := foldl_afterChar_line feedless (cursor.line, cursor.column)
  rw [← taken] at place
  refine ⟨?_, ?_, ?_, congrArg Prod.fst place, (congrArg Prod.snd place).trans ?_, fun _ => rfl,
    fun _ _ _ => rfl, ?_⟩
  · show cursor.rest.drop _ = (blanks body ++ back).drop _
    rw [left, here, List.drop_left' rfl]
  · show cursor.offset + byteLength (cursor.rest.take _) = _
    rw [taken, start, offset]
    exact (pastComment_back 0).symm
  · intro n
    rw [start, pastComment_back]
    exact congrArg (· + n) (pastComment_back 0).symm
  · show cursor.column + (cursor.rest.take _).length =
      cursor.column + ((blanks body ++ back).take _).length
    rw [taken, taken', length_blanks]
  · intro text starts number
    have starts : (blanks body ++ back).drop (comment body).length = '-' :: text := starts
    rw [left] at starts
    rw [unsigned text starts] at number
    cases number

end Cursor

namespace Scan

variable {scan next : Scan} {tokens before cut : List Token} {source : List Char}

/-- Blanks inside a line cut no tokens. -/
theorem run_gap (inside : scan.lineStart = false) {gap : List Char}
    (blank : ∀ c ∈ gap, isSpace c = true) (here : scan.cursor.rest = gap ++ back)
    (cut : List Token) :
    scan.run cut = { scan with cursor := scan.cursor.along gap.length }.run cut := by
  induction gap generalizing scan with
  | nil => rfl
  | cons c gap ih =>
    obtain ⟨first, blank⟩ := List.forall_mem_cons.1 blank
    rw [run_step cut here (step_space inside first)]
    have here' : (scan.cursor.along 1).rest = gap ++ back := by
      rw [Cursor.rest_along, here]
      rfl
    have next := @ih { scan with cursor := scan.cursor.along 1 } inside blank here'
    rw [List.reverse_nil, List.nil_append, next, Cursor.along_add, List.length_cons,
      Nat.add_comm 1]

/-- What a scan has cut stands in front of it. -/
theorem Reached.spans_le (reached : Reached source before scan) : ∀ token ∈ before,
    token.span.start ≤ scan.cursor.offset ∧ token.span.stop ≤ scan.cursor.offset := by
  induction reached with
  | start => exact List.forall_mem_nil _
  | step reached _ step ih =>
    intro token ht
    rcases List.mem_append.1 ht with ht | ht
    · have further := step.offset_le
      exact (ih token ht).imp (Nat.le_trans · further) (Nat.le_trans · further)
    · exact step.spans_le token ht

/-- A scan stands behind the text in front of what is left. -/
theorem Comes.offset_eq (comes : Comes (front ++ back) before scan)
    (here : scan.cursor.rest = back) : scan.cursor.offset = byteLength front := by
  obtain ⟨passed, place⟩ := comes.reached.place
  have split := place.split
  rw [here] at split
  rw [place.offset, List.append_cancel_right split]

/-- What stands before a comment inside a line stands before blanks in its place too. -/
theorem Comes.blanked {left : Token}
    (comes : Comes (commented front body back) (before ++ [left]) scan)
    (here : scan.cursor.rest = comment body ++ back) (content : left.kind.endsLine = false) :
    Comes (blanked front body back) (before ++ [left]) (scan.facing (blanks body ++ back)) := by
  have exchanges : Exchanges (comment body ++ back) (blanks body ++ back) := by
    constructor
    · rintro c ⟨⟩
      decide
    · rintro c ⟨⟩
      decide
    · rintro ⟨⟩
  have alike : EndsAlike [] (comment body ++ back) (blanks body ++ back) := by
    intro _ ends
    rcases ends '/' rfl with h | h <;> cases h
  have unpaired : Unpaired front (comment body ++ back) (blanks body ++ back) :=
    fun _ => ⟨by rintro ⟨⟩, by rintro ⟨⟩⟩
  exact comes.exchange (r := []) exchanges alike (fun _ => List.cons_ne_nil _ _) unpaired here
    fun _ => .inr (not_startsLine_snoc content)

/-- The scanner passes the comment. -/
theorem run_comment (inside : scan.lineStart = false)
    (here : scan.cursor.rest = comment body ++ back) (closes : ¬ ['*', '/'] <:+: body)
    (cut : List Token) : scan.run cut =
      { scan with cursor := scan.cursor.across (comment body).length }.run cut := by
  rw [comment_append] at here
  have closed : scan.cursor.blockComment = .ok (scan.cursor.across (comment body).length) := by
    unfold Cursor.blockComment
    rw [here, List.drop_succ_cons, List.drop_succ_cons, List.drop_zero, commentEnd?_body closes,
      length_comment]
  have step : scan.step '/' ('*' :: (body ++ '*' :: '/' :: back)) =
      .ok ([], { scan with cursor := scan.cursor.across (comment body).length }) := by
    rw [step_blockComment inside, closed]
    rfl
  rw [run_step cut here step, List.reverse_nil, List.nil_append]

end Scan

/-- The tokens of a source are those with blanks in the place of the comment, moved. -/
theorem carries_tokenize_blanked {before : List Token} {left : Token} {scan : Scan}
    (comes : Scan.Comes (commented front body back) (before ++ [left]) scan)
    (here : scan.cursor.rest = comment body ++ back) (content : left.kind.endsLine = false)
    (closes : ¬ ['*', '/'] <:+: body) (oneLine : '\n' ∉ body)
    (unsigned : ∀ rest, back = '-' :: rest → Lexeme.startsNumber rest = false) :
    Carries True (fun tokens tokens' => tokens' = tokens.map (·.moved (pastComment front body)))
      (tokenize (String.ofList (blanked front body back)))
      (tokenize (String.ofList (commented front body back))) := by
  have offset : scan.cursor.offset = byteLength front := comes.offset_eq here
  have inside : scan.lineStart = false := by
    by_contra starts
    have newline := comes.atLineStart (by simpa using starts) left List.getLast?_concat
    rw [newline] at content
    cases content
  have before_moved : (before ++ [left]).map (·.moved (pastComment front body)) =
      before ++ [left] := by
    refine (List.map_congr_left fun token ht => ?_).trans (List.map_id _)
    obtain ⟨starts, stops⟩ := comes.reached.spans_le token ht
    rw [offset] at starts stops
    simp only [Token.moved, Span.moved, pastComment_front starts, pastComment_front stops]
    rfl
  have isBlank : ∀ c ∈ blanks body, isSpace c = true := by
    intro c hc
    rw [List.eq_of_mem_replicate hc]
    rfl
  have blank := @Scan.run_gap back (scan.facing (blanks body ++ back)) inside _ isBlank rfl
  rw [length_blanks] at blank
  have moved : Scan.Moved (pastComment front body)
      { scan.facing (blanks body ++ back) with
        cursor := (scan.facing (blanks body ++ back)).cursor.along (comment body).length }
      { scan with cursor := scan.cursor.across (comment body).length } :=
    ⟨Cursor.moved_comment here offset oneLine unsigned, rfl, rfl, rfl⟩
  rw [comes.tokenize_eq, (comes.blanked here content).tokenize_eq,
    Scan.run_comment inside here closes, blank]
  refine ((Carries.of_moved (moved.run _)).of_imp fun _ => rfl).mono ?_
  rintro _ _ ⟨more, rfl, rfl⟩
  rw [List.map_append, List.reverse_reverse, before_moved]

end StylusToScss
