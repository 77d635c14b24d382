import StylusToScss.Proofs.Slice
import StylusToScss.Proofs.Token.Runs
import StylusToScss.Proofs.Token.Spelling

/-!
# Cutting a source into tokens loses nothing

A source is its tokens in order, with nothing between them but blanks, line breaks and whole
comments. `Lossless` says this of a list of tokens and the text they are cut from, by recursion on
the tokens; a run of the scanner has it by induction on its steps (`Runs.lossless`), whatever its
levels and parentheses are. `tokenize_lossless` says it with byte offsets: every token and every gap
is a slice of the source.
-/

namespace StylusToScss

/-! ## What may stand between tokens -/

/-- The text is at the end of its line. -/
def AtLineEnd (text : List Char) : Prop := ∀ c ∈ text.head?, c = '\n' ∨ c = '\r'

/-- Blanks, line breaks and whole comments, in front of the text `after`. A line comment goes on to
the end of its line, a block comment to the first closing mark. -/
inductive Skipped (after : List Char) : List Char → Prop
  | nil : Skipped after []
  | blank {c : Char} {text : List Char} (isBlank : c = ' ' ∨ c = '\t' ∨ c = '\n' ∨ c = '\r')
      (more : Skipped after text) : Skipped after (c :: text)
  | lineComment {body text : List Char} (inLine : ∀ c ∈ body, c ≠ '\n' ∧ c ≠ '\r')
      (ends : AtLineEnd (text ++ after)) (more : Skipped after text) :
      Skipped after ('/' :: '/' :: body ++ text)
  | blockComment {body text : List Char} (inside : ¬ ['*', '/'] <:+: body)
      (more : Skipped after text) : Skipped after ('/' :: '*' :: body ++ '*' :: '/' :: text)

theorem Skipped.append {a b after : List Char} (ha : Skipped (b ++ after) a)
    (hb : Skipped after b) : Skipped after (a ++ b) := by
  induction ha with
  | nil => exact hb
  | blank isBlank _ ih => exact .blank isBlank ih
  | @lineComment body text inLine ends _ ih =>
    rw [List.append_assoc]
    exact .lineComment inLine (by rwa [List.append_assoc]) ih
  | @blockComment body text inside _ ih =>
    rw [List.append_assoc]
    exact .blockComment inside ih

theorem Skipped.blanks {text after : List Char} (h : ∀ c ∈ text, isSpace c = true) :
    Skipped after text := by
  induction text with
  | nil => exact .nil
  | cons c text ih =>
    have hc := h c (.head _)
    simp only [isSpace, Bool.or_eq_true, beq_iff_eq] at hc
    refine .blank ?_ (ih fun d hd => h d (.tail _ hd))
    rcases hc with hc | hc
    · exact .inl hc
    · exact .inr (.inl hc)

/-- Behind a run of characters stands one that does not belong to it. -/
theorem atLineEnd_dropWhile (text : List Char) :
    AtLineEnd (text.drop (text.takeWhile fun c => c != '\n' && c != '\r').length) := by
  induction text with
  | nil => simp [AtLineEnd]
  | cons c text ih =>
    by_cases h : (c != '\n' && c != '\r') = true
    · simpa [h] using ih
    · intro d hd
      simp only [List.takeWhile_cons, h] at hd
      cases hd
      simpa [← or_iff_not_imp_left] using h

/-- A block comment ends at the first closing mark behind its opening. -/
theorem commentEnd?_spec {text : List Char} {n : Nat} (h : commentEnd? text = some n) :
    ∃ body, text.take n = body ++ ['*', '/'] ∧ ¬ ['*', '/'] <:+: body := by
  fun_induction commentEnd? text generalizing n with
  | case1 => cases h
  | case2 rest =>
    cases h
    exact ⟨[], rfl, by simp⟩
  | case3 c rest other ih =>
    obtain ⟨m, hm, rfl⟩ := Option.map_eq_some_iff.1 h
    obtain ⟨body, taken, inside⟩ := ih hm
    refine ⟨c :: body, by simp [taken], ?_⟩
    intro closes
    rcases List.infix_cons_iff.1 closes with starts | closes
    · -- the mark would start at `c`, where the reading has not stopped
      obtain ⟨rfl, slash⟩ := List.cons_prefix_cons.1 starts
      obtain ⟨more, rfl⟩ := slash
      cases rest with
      | nil => simp at taken
      | cons d rest =>
        cases m with
        | zero => simp at taken
        | succ m =>
          simp only [List.take_succ_cons, List.cons_append, List.cons.injEq] at taken
          exact other rest rfl (by rw [taken.1])
    · exact inside closes

/-- A line break is a line feed, a carriage return, or the two together. -/
theorem lineBreak_spec {text : List Char} (h : lineBreak text ≠ 0) :
    (∃ rest, text = '\r' :: '\n' :: rest ∧ lineBreak text = 2) ∨
      ∃ c rest, text = c :: rest ∧ (c = '\n' ∨ c = '\r') ∧ lineBreak text = 1 := by
  unfold lineBreak at h ⊢
  split at h <;> simp_all

/-- A line break ends with a character of one byte. -/
theorem take_lineBreak {text : List Char} (h : lineBreak text ≠ 0) :
    ∃ front c, text.take (lineBreak text) = front ++ [c] ∧ byteLength [c] = 1 := by
  rcases lineBreak_spec h with ⟨rest, rfl, two⟩ | ⟨c, rest, rfl, isBreak, one⟩
  · rw [two]
    exact ⟨['\r'], '\n', rfl, rfl⟩
  · rw [one]
    refine ⟨[], c, rfl, ?_⟩
    rcases isBreak with rfl | rfl <;> rfl

/-! ## Moving over what is skipped -/

namespace Cursor

theorem offset_along (cursor : Cursor) (n : Nat) :
    (cursor.along n).offset = cursor.offset + byteLength (cursor.rest.take n) := rfl

/-- Between one place and a later one stands nothing but what may be skipped. -/
def Skips (cursor next : Cursor) : Prop :=
  ∃ gap, cursor.rest = gap ++ next.rest ∧ next.offset = cursor.offset + byteLength gap ∧
    Skipped next.rest gap

theorem Skips.trans {a b c : Cursor} (hab : a.Skips b) (hbc : b.Skips c) : a.Skips c := by
  obtain ⟨gap, rest, offset, skipped⟩ := hab
  obtain ⟨gap', rest', offset', skipped'⟩ := hbc
  refine ⟨gap ++ gap', by rw [rest, rest', List.append_assoc], ?_, ?_⟩
  · rw [offset', offset, byteLength_append, Nat.add_assoc]
  · rw [rest'] at skipped
    exact skipped.append skipped'

theorem skips_along {cursor : Cursor} {n : Nat}
    (h : Skipped (cursor.rest.drop n) (cursor.rest.take n)) : cursor.Skips (cursor.along n) :=
  ⟨cursor.rest.take n, (List.take_append_drop n _).symm, rfl, h⟩

theorem take_spaces (text : List Char) : text.take (spaces text) = text.takeWhile isSpace :=
  (List.prefix_iff_eq_take.1 (List.takeWhile_prefix _)).symm

theorem skips_spaces (cursor : Cursor) : cursor.Skips (cursor.along (spaces cursor.rest)) := by
  apply skips_along
  rw [take_spaces]
  exact .blanks fun c hc => List.mem_takeWhile_imp hc

theorem skips_lineComment {cursor : Cursor} {rest : List Char}
    (here : cursor.rest = '/' :: '/' :: rest) :
    cursor.Skips (cursor.along (lineComment cursor.rest)) := by
  have ends := atLineEnd_dropWhile cursor.rest
  have taken := List.prefix_iff_eq_take.1
    (List.takeWhile_prefix (l := cursor.rest) fun c => c != '\n' && c != '\r')
  have whole : cursor.rest.takeWhile (fun c => c != '\n' && c != '\r') =
      '/' :: '/' :: rest.takeWhile fun c => c != '\n' && c != '\r' := by simp [here]
  have inLine : ∀ c ∈ rest.takeWhile fun c => c != '\n' && c != '\r', c ≠ '\n' ∧ c ≠ '\r' := by
    intro c hc
    have := List.mem_takeWhile_imp hc
    simpa using this
  apply skips_along
  rw [lineComment, ← taken, whole]
  rw [whole] at ends
  simpa using @Skipped.lineComment _ _ [] inLine ends .nil

theorem skips_blockComment {cursor next : Cursor} {rest : List Char}
    (here : cursor.rest = '/' :: '*' :: rest) (h : cursor.blockComment = .ok next) :
    cursor.Skips next := by
  unfold blockComment at h
  split at h
  · next n hn =>
    cases h
    rw [here] at hn
    obtain ⟨body, taken, inside⟩ := commentEnd?_spec hn
    refine ⟨cursor.rest.take (n + 2), (List.take_append_drop _ _).symm, rfl, ?_⟩
    have comment := @Skipped.blockComment (cursor.across (n + 2)).rest _ [] inside .nil
    simp only [List.drop_succ_cons, List.drop_zero] at taken
    rw [here, List.take_succ_cons, List.take_succ_cons, taken]
    simpa using comment
  · cases h

/-- What stands in front of the first lexeme of a line is skipped. -/
theorem skips_indentation {cursor first : Cursor} (h : cursor.indentation = .ok first) :
    cursor.Skips first := by
  have blank := skips_spaces cursor
  unfold indentation at h
  simp only at h
  split at h
  · next here =>
    cases h
    exact blank.trans (skips_lineComment here)
  · next here =>
    obtain ⟨next, closed, rfl⟩ := map_eq_ok_iff.1 h
    exact (blank.trans (skips_blockComment here closed)).trans (skips_spaces next)
  · cases h
    exact blank

theorem skips_nextLine {cursor : Cursor} (h : lineBreak cursor.rest ≠ 0) :
    cursor.Skips (cursor.nextLine (lineBreak cursor.rest)) := by
  refine ⟨cursor.rest.take (lineBreak cursor.rest), (List.take_append_drop _ _).symm, rfl, ?_⟩
  rcases lineBreak_spec h with ⟨rest, here, two⟩ | ⟨c, rest, here, isBreak, one⟩
  · rw [two, here]
    exact .blank (by simp) (.blank (by simp) .nil)
  · rw [one, here]
    exact .blank (.inr (.inr isBreak)) .nil

theorem offset_along_le (cursor : Cursor) (n : Nat) : cursor.offset ≤ (cursor.along n).offset :=
  Nat.le_add_right _ _

theorem Skips.offset_le {cursor next : Cursor} (h : cursor.Skips next) :
    cursor.offset ≤ next.offset := by
  obtain ⟨gap, -, offset, -⟩ := h
  rw [offset]
  exact Nat.le_add_right _ _

end Cursor

open Cursor in
/-- No step goes back. -/
theorem Scan.Step.offset_le {scan next : Scan} {tokens : List Token}
    (step : Scan.Step scan tokens next) : scan.cursor.offset ≤ next.cursor.offset := by
  cases step with
  | line _ indented opened =>
    rw [(startLine_cursor opened).1]
    exact (skips_indentation indented).offset_le
  | newline _ _ broken =>
    rcases breakLine_cases broken with ⟨-, -, rfl⟩ | ⟨-, -, rfl⟩
    · exact offset_along_le _ _
    · exact offset_along_le _ _
  | commentBlock here _ closed => exact (skips_blockComment here closed).offset_le
  | space | commentLine | lexeme => exact offset_along_le _ _

/-! ## Tokens and the text they are cut from -/

/-- The tokens are what the text holds, which starts at a byte offset of the source: each one stands
behind something skipped, and covers a text that its kind is spelled by; the last one stands at the
end. -/
inductive Lossless : Nat → List Char → List Token → Prop
  | nil {offset : Nat} : Lossless offset [] []
  | cons {offset : Nat} {gap text rest : List Char} {token : Token} {tokens : List Token}
      (skipped : Skipped (text ++ rest) gap) (spelled : token.kind.SpelledBy text)
      (starts : token.span.start = offset + byteLength gap)
      (stops : token.span.stop = token.span.start + byteLength text)
      (more : Lossless token.span.stop rest tokens) :
      Lossless offset (gap ++ (text ++ rest)) (token :: tokens)

/-- What is skipped in front of the tokens belongs to the gap of the first one. -/
theorem Lossless.skip {offset : Nat} {gap text : List Char} {tokens : List Token}
    (skipped : Skipped text gap) (h : Lossless (offset + byteLength gap) text tokens)
    (some : tokens ≠ []) : Lossless offset (gap ++ text) tokens := by
  cases h with
  | nil => exact absurd rfl some
  | cons skipped' spelled starts stops more =>
    rw [← List.append_assoc]
    refine .cons (skipped.append skipped') spelled ?_ stops more
    rw [starts, byteLength_append, Nat.add_assoc]

/-- Tokens that stand for no text can be put in front of others. -/
theorem Lossless.empty {cursor : Cursor} {text : List Char} {tokens : List Token} (kind : Kind)
    (empty : kind.SpelledBy []) (n : Nat) (h : Lossless cursor.offset text tokens) :
    Lossless cursor.offset text (List.replicate n (cursor.token kind 0) ++ tokens) := by
  induction n with
  | zero => exact h
  | succ n ih => exact @Lossless.cons _ [] [] _ _ _ .nil empty rfl rfl ih

/-! ## Runs -/

namespace Scan

theorem Runs.ne_nil {scan : Scan} {tokens : List Token} (h : Runs scan tokens) : tokens ≠ [] := by
  induction h with
  | done => simp [closing]
  | step _ _ ih => exact fun none => ih (List.append_eq_nil_iff.1 none).2

/-- The token of a line break outside parentheses is its last character. -/
theorem lossless_breakToken {cursor : Cursor} {tokens : List Token}
    (breaks : lineBreak cursor.rest ≠ 0)
    (h : Lossless (cursor.nextLine (lineBreak cursor.rest)).offset
      (cursor.nextLine (lineBreak cursor.rest)).rest tokens) :
    Lossless cursor.offset cursor.rest (cursor.breakToken (lineBreak cursor.rest) :: tokens) := by
  rcases lineBreak_spec breaks with ⟨rest, here, two⟩ | ⟨c, rest, here, isBreak, one⟩
  · rw [two] at h ⊢
    have size : (cursor.along 2).offset = cursor.offset + 2 := by
      rw [Cursor.offset_along, here]
      rfl
    have split := @Lossless.cons cursor.offset ['\r'] ['\n'] _ (cursor.breakToken 2) tokens
      (.blank (by simp) .nil) (.inl rfl)
      (show (cursor.along 2).offset - 1 = _ by rw [size]; rfl)
      (show (cursor.along 2).offset = (cursor.along 2).offset - 1 + 1 by omega) h
    simpa [here] using split
  · rw [one] at h ⊢
    have width : c.utf8Size = 1 := by rcases isBreak with rfl | rfl <;> rfl
    have size : (cursor.along 1).offset = cursor.offset + 1 := by
      rw [Cursor.offset_along, here]
      simp [byteLength, width]
    have split := @Lossless.cons cursor.offset [] [c] _ (cursor.breakToken 1) tokens .nil
      (by rcases isBreak with rfl | rfl <;> simp [Cursor.breakToken, Kind.SpelledBy])
      (show (cursor.along 1).offset - 1 = _ by rw [size]; rfl)
      (show (cursor.along 1).offset = (cursor.along 1).offset - 1 + byteLength [c] by
        simp only [byteLength, width]; omega) h
    simpa [here] using split

/-- A lexeme covers its spelling. -/
theorem lossless_lexeme {cursor : Cursor} {item : Lexeme} {tokens : List Token}
    (front : item.FrontOf cursor.rest)
    (h : Lossless (cursor.along item.spelling.length).offset
      (cursor.along item.spelling.length).rest tokens) :
    Lossless cursor.offset cursor.rest
      (cursor.token item.kind item.spelling.length :: tokens) := by
  have taken := List.prefix_iff_eq_take.1 front.starts
  have split := @Lossless.cons cursor.offset [] item.spelling _
    (cursor.token item.kind item.spelling.length) tokens .nil front.spelled rfl
    (show (cursor.along _).offset = cursor.offset + _ by rw [Cursor.offset_along, ← taken]) h
  simpa [List.prefix_iff_eq_append.1 front.starts] using split

theorem Step.lossless {scan next : Scan} {tokens more : List Token} (step : Step scan tokens next)
    (some : more ≠ []) (h : Lossless next.cursor.offset next.cursor.rest more) :
    Lossless scan.cursor.offset scan.cursor.rest (tokens ++ more) := by
  -- a step that cuts no token moves over something skipped
  have skip : scan.cursor.Skips next.cursor →
      Lossless scan.cursor.offset scan.cursor.rest more := by
    rintro ⟨gap, rest, offset, skipped⟩
    rw [rest]
    exact .skip skipped (offset ▸ h) some
  cases step with
  | @line first _ _ _ indented opened =>
    obtain ⟨gap, rest, offset, skipped⟩ := Cursor.skips_indentation indented
    rw [(startLine_cursor opened).1] at h
    rw [rest]
    refine .skip skipped (offset ▸ ?_) (by simp [some])
    cases startLine_ok opened with
    | empty => exact h
    | indent => exact h.empty .indent rfl 1
    | dedents => exact h.empty .dedent rfl _
  | space here _ blank =>
    refine skip (Cursor.skips_along ?_)
    rw [here]
    exact .blanks (by simpa using blank)
  | newline _ breaks broken =>
    rcases breakLine_cases broken with ⟨-, rfl, rfl⟩ | ⟨-, rfl, rfl⟩
    · exact lossless_breakToken breaks h
    · exact skip (Cursor.skips_nextLine breaks)
  | commentLine here => exact skip (Cursor.skips_lineComment here)
  | commentBlock here _ closed => exact skip (Cursor.skips_blockComment here closed)
  | lexeme here _ _ read => exact lossless_lexeme (here ▸ lexeme_frontOf read) h

theorem lossless_closing {scan : Scan} (ended : scan.cursor.rest = []) :
    Lossless scan.cursor.offset scan.cursor.rest scan.closing := by
  have eof : Lossless scan.cursor.offset [] [scan.cursor.token .endOfInput 0] :=
    @Lossless.cons _ [] [] [] _ _ .nil rfl rfl rfl .nil
  rw [ended]
  exact eof.empty .dedent rfl _

/-- Every run of the scanner cuts what it runs over without loss. -/
theorem Runs.lossless {scan : Scan} {tokens : List Token} (h : Runs scan tokens) :
    Lossless scan.cursor.offset scan.cursor.rest tokens := by
  induction h with
  | done ended => exact lossless_closing ended
  | step step runs ih => exact step.lossless runs.ne_nil ih

end Scan

/-! ## Slices of the source -/

/-- Where the last of the tokens ends, or `offset` where there is none. -/
def stopBehind (offset : Nat) (tokens : List Token) : Nat :=
  tokens.foldl (fun _ token => token.span.stop) offset

/-- A token is cut from the source behind the offset `previous`: its span lies in the source behind
that offset, both ends are boundaries of characters, the slice up to it may be skipped, and its own
slice is what its kind is spelled by. -/
structure CutFrom (source : String) (previous : Nat) (token : Token) : Prop where
  ordered : previous ≤ token.span.start ∧ token.span.start ≤ token.span.stop ∧
    token.span.stop ≤ source.utf8ByteSize
  boundaries : String.Pos.Raw.IsValid source ⟨token.span.start⟩ ∧
    String.Pos.Raw.IsValid source ⟨token.span.stop⟩
  gap : ∃ gap rest, slice? source previous token.span.start = some gap ∧
    slice? source token.span.start source.utf8ByteSize = some rest ∧
    Skipped rest.toList gap.toList
  text : ∃ text, slice? source token.span.start token.span.stop = some text ∧
    token.kind.SpelledBy text.toList

theorem cutFrom_of_split {source : String} {token : Token} {passed gap text rest : List Char}
    (split : source.toList = passed ++ (gap ++ (text ++ rest)))
    (skipped : Skipped (text ++ rest) gap) (spelled : token.kind.SpelledBy text)
    (starts : token.span.start = byteLength passed + byteLength gap)
    (stops : token.span.stop = token.span.start + byteLength text) :
    CutFrom source (byteLength passed) token := by
  have atStart : source.toList = passed ++ gap ++ (text ++ rest) := by simp [split]
  have atStop : source.toList = passed ++ gap ++ text ++ rest := by simp [split]
  have toEnd : source.toList = passed ++ gap ++ (text ++ rest) ++ [] := by simp [split]
  have size : source.utf8ByteSize = byteLength (passed ++ gap) + byteLength (text ++ rest) := by
    rw [utf8ByteSize_eq_byteLength, atStart, byteLength_append]
  rw [← byteLength_append] at starts
  refine ⟨⟨?_, ?_, ?_⟩, ⟨?_, ?_⟩, ⟨String.ofList gap, String.ofList (text ++ rest), ?_, ?_, ?_⟩,
    ⟨String.ofList text, ?_, ?_⟩⟩
  · rw [starts, byteLength_append]
    omega
  · omega
  · rw [size, stops, starts, byteLength_append text]
    omega
  · rw [starts]
    exact isValid_byteLength atStart
  · rw [stops, starts, ← byteLength_append]
    exact isValid_byteLength atStop
  · rw [starts, byteLength_append]
    exact slice?_eq_some atStart
  · rw [starts, size]
    exact slice?_eq_some toEnd
  · simpa using skipped
  · rw [stops, starts]
    exact slice?_eq_some atStop
  · simpa using spelled

/-- Tokens that a part of the source is cut into without loss are cut from it one behind the other,
up to its end. -/
theorem Lossless.cutFrom {source : String} {offset : Nat} {text : List Char}
    {tokens : List Token} (h : Lossless offset text tokens) (passed : List Char)
    (here : offset = byteLength passed) (split : source.toList = passed ++ text) :
    (∀ before token after, tokens = before ++ token :: after →
      CutFrom source (stopBehind offset before) token) ∧
      stopBehind offset tokens = source.utf8ByteSize := by
  induction h generalizing passed with
  | nil =>
    refine ⟨?_, ?_⟩
    · intro before token after h
      simp at h
    · rw [utf8ByteSize_eq_byteLength, split, List.append_nil]
      exact here
  | @cons offset gap text rest token tokens skipped spelled starts stops _ ih =>
    have behind : token.span.stop = byteLength (passed ++ gap ++ text) := by
      rw [stops, starts, here, byteLength_append, byteLength_append]
    obtain ⟨each, last⟩ := ih _ behind (by simp [split])
    refine ⟨?_, last⟩
    intro before token' after h
    cases before with
    | nil =>
      cases h
      rw [here] at starts ⊢
      exact cutFrom_of_split split skipped spelled starts stops
    | cons first before =>
      cases h
      exact each before token' after rfl

/-- Cutting a source into tokens loses nothing: each token lies behind the one before it, with
nothing between them but blanks, line breaks and whole comments; its slice of the source is exactly
what its kind is spelled by; and the last token ends where the source ends. -/
theorem tokenize_lossless {source : String} {tokens : List Token}
    (h : tokenize source = .ok tokens) :
    (∀ before token after, tokens = before ++ token :: after →
      CutFrom source (stopBehind 0 before) token) ∧
      stopBehind 0 tokens = source.utf8ByteSize :=
  (Scan.runs_of_tokenize h).lossless.cutFrom [] rfl rfl

/-- The address is cut behind a comment, a line break of two characters and two blanks. -/
theorem cutFrom_address : tokenize "é(// x\r\n  url(a b)) \"\\\"ö\"" =
      .ok [⟨.ident "é", ⟨0, 2, 1, 1⟩⟩, ⟨.leftParen, ⟨2, 3, 1, 2⟩⟩,
        ⟨.url "url(a b)", ⟨11, 19, 2, 3⟩⟩, ⟨.rightParen, ⟨19, 20, 2, 11⟩⟩,
        ⟨.string "\\\"ö" '"', ⟨21, 27, 2, 13⟩⟩, ⟨.endOfInput, ⟨27, 27, 2, 18⟩⟩] ∧
    CutFrom "é(// x\r\n  url(a b)) \"\\\"ö\"" 3 ⟨.url "url(a b)", ⟨11, 19, 2, 3⟩⟩ :=
  ⟨by decide +kernel, (tokenize_lossless (by decide +kernel)).1
    [⟨.ident "é", ⟨0, 2, 1, 1⟩⟩, ⟨.leftParen, ⟨2, 3, 1, 2⟩⟩] _
    [⟨.rightParen, ⟨19, 20, 2, 11⟩⟩, ⟨.string "\\\"ö" '"', ⟨21, 27, 2, 13⟩⟩,
      ⟨.endOfInput, ⟨27, 27, 2, 18⟩⟩] rfl⟩

end StylusToScss
