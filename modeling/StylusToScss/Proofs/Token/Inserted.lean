import StylusToScss.Proofs.Token.Exchange
import StylusToScss.Proofs.Token.Levels
import StylusToScss.Proofs.Token.Moved
import StylusToScss.Proofs.Token.Positions

/-!
# A mark behind a token

A semicolon or a colon behind a token that touches no other one is a token of its own
(`tokenize_marked`). The tokens in front of it stay as they are, and those behind it are moved by a
byte, and by a column on the same line.
-/

namespace StylusToScss

variable {front back : List Char} {before after tokens : List Token} {left : Token}

/-- The marks that end a line and that divide a property. -/
inductive Punctuates : Char → Kind → Prop
  | semicolon : Punctuates ';' .semicolon
  | colon : Punctuates ':' .colon

namespace Punctuates

variable {c : Char} {kind : Kind}

theorem mem (h : Punctuates c kind) : c ∈ delimiters := by
  cases h <;> decide

theorem lexeme (h : Punctuates c kind) (previous : Option Char) (rest : List Char) :
    lexeme previous c rest = .ok ⟨kind, [c], List.cons_ne_nil _ _⟩ := by
  cases h <;> rfl

/-- The mark is no blank, no line break and no comment. -/
theorem visible (h : Punctuates c kind) (rest : List Char) :
    isSpace c = false ∧ lineBreak (c :: rest) = 0 ∧ ¬ StartsComment (c :: rest) := by
  cases h <;> exact ⟨rfl, rfl, by rintro ⟨_, here | here⟩ <;> cases here⟩

theorem byteLength_eq (h : Punctuates c kind) : byteLength [c] = 1 := by
  cases h <;> rfl

theorem parensAfter (h : Punctuates c kind) (parens : Nat) :
    Scan.parensAfter parens kind = parens := by
  cases h <;> rfl

end Punctuates

/-- The characters that a blank, a line break and a comment start with. -/
def gapStarts : List Char := ['\n', '\r', ' ', '\t', '/']

/-- The text is empty or does not start with a token. -/
def StartsGap (text : List Char) : Prop := ∀ c ∈ text.head?, c ∈ gapStarts

theorem StartsGap.delimits {text : List Char} (h : StartsGap text) : Delimits text :=
  fun c hc => List.mem_append_left [';', ':'] (h c hc)

/-- A lexeme does not end with a carriage return. -/
theorem getLast?_lexeme {previous : Option Char} {c : Char} {rest : List Char} {item : Lexeme}
    (read : lexeme previous c rest = .ok item) (unbroken : lineBreak (c :: rest) = 0) :
    item.spelling.getLast? ≠ some '\r' := by
  have spelled := (lexeme_frontOf read).spelled
  intro last
  by_cases string : ∃ value quote, item.kind = .string value quote
  · obtain ⟨value, quote, kind⟩ := string
    rw [kind] at spelled
    obtain ⟨isQuote, text⟩ := spelled
    rw [text, List.getLast?_concat] at last
    cases last
    rcases isQuote with same | same <;> cases same
  · have solid : Unbroken [c] := by
      refine unbroken_singleton ?_ ?_
      · rintro rfl
        cases unbroken
      · rintro rfl
        rw [lineBreak_return] at unbroken
        split at unbroken <;> cases unbroken
    have inside := unbroken_lexeme read solid fun value quote kind =>
      absurd ⟨value, quote, kind⟩ string
    exact (inside _ (List.mem_of_getLast? last)).2 rfl

/-- The place behind a mark. -/
theorem Cursor.along_one {cursor : Cursor} {c : Char} {kind : Kind} {rest : List Char}
    (mark : Punctuates c kind) (here : cursor.rest = c :: rest) : cursor.along 1 =
      ⟨some c, rest, cursor.offset + 1, cursor.line, cursor.column + 1⟩ := by
  unfold Cursor.along
  rw [here]
  show Cursor.mk (some c) rest (cursor.offset + byteLength [c]) _ _ = _
  rw [mark.byteLength_eq]
  rfl

namespace Scan

variable {scan next : Scan} {source : List Char}

/-- The step that cuts a lexeme, which stands at the front of the text that is left. -/
structure CutsLexeme (scan : Scan) (c : Char) (rest : List Char) (item : Lexeme) (token : Token)
    (next : Scan) : Prop where
  here : scan.cursor.rest = c :: rest
  inside : scan.lineStart = false
  solid : isSpace c = false
  unbroken : lineBreak (c :: rest) = 0
  plain : ¬ StartsComment (c :: rest)
  read : lexeme scan.cursor.previous c rest = .ok item
  token : token = scan.cursor.token item.kind item.spelling.length
  next : next = { scan with
    cursor := scan.cursor.along item.spelling.length
    parens := parensAfter scan.parens item.kind }

/-- A token that is no mark of a line or level is the only one that its step cuts. -/
theorem cutsLexeme_of_step {ahead behind : List Token} {c : Char} {rest : List Char}
    (here : scan.cursor.rest = c :: rest) (content : left.kind.endsLine = false)
    (stepped : scan.step c rest = .ok (ahead ++ left :: behind, next)) :
    ahead = [] ∧ behind = [] ∧ ∃ item, CutsLexeme scan c rest item left next := by
  have mem : left ∈ ahead ++ left :: behind := List.mem_append_right _ (.head _)
  generalize cut : ahead ++ left :: behind = tokens at stepped mem
  cases starts : scan.lineStart with
  | true =>
    rw [step_line starts] at stepped
    obtain ⟨first, -, opened⟩ := bind_eq_ok_iff.1 stepped
    cases startLine_ok opened with
    | empty => cases mem
    | indent =>
      cases List.mem_singleton.1 mem
      cases content
    | dedents =>
      cases List.eq_of_mem_replicate mem
      cases content
  | false =>
    cases front_cases c rest with
    | space blank =>
      rw [step_space starts blank] at stepped
      cases stepped
      cases mem
    | newline breaks =>
      rw [step_newline starts breaks] at stepped
      rcases breakLine_cases (Except.ok.inj stepped) with ⟨-, rfl, -⟩ | ⟨-, rfl, -⟩
      · cases List.mem_singleton.1 mem
        cases content
      · cases mem
    | lineComment =>
      rw [step_lineComment starts] at stepped
      cases stepped
      cases mem
    | blockComment =>
      rw [step_blockComment starts] at stepped
      obtain ⟨_, -, same⟩ := map_eq_ok_iff.1 stepped
      cases same
      cases mem
    | lexeme solid unbroken plain =>
      rw [step_lexeme_eq starts solid unbroken plain] at stepped
      cases read : lexeme scan.cursor.previous c rest with
      | error e =>
        rw [read] at stepped
        cases stepped
      | ok item =>
        rw [read] at stepped
        cases stepped
        rcases List.append_eq_singleton_iff.1 cut with ⟨none, only⟩ | ⟨-, only⟩
        · obtain ⟨same, none'⟩ := List.cons.inj only
          exact ⟨none, none', item, here, starts, solid, unbroken, plain, read, same, rfl⟩
        · cases only

namespace CutsLexeme

variable {c : Char} {rest : List Char} {item : Lexeme} {token : Token}

theorem step (h : CutsLexeme scan c rest item token next) :
    scan.step c rest = .ok ([token], next) := by
  rw [step_lexeme_eq h.inside h.solid h.unbroken h.plain, h.read, h.token, h.next]

theorem rest_eq (h : CutsLexeme scan c rest item token next) :
    scan.cursor.rest = item.spelling ++ next.cursor.rest := by
  have front := List.prefix_iff_eq_append.1 (lexeme_frontOf h.read).starts
  rw [h.next, Cursor.rest_along, h.here, front]

end CutsLexeme

/-- The scanner comes to the step that cuts a token. -/
theorem exists_cutsLexeme (cut : tokenize (String.ofList source) = .ok (before ++ left :: after))
    (content : left.kind.endsLine = false) : ∃ scan c rest item next,
      Comes source before scan ∧ CutsLexeme scan c rest item left next := by
  obtain ⟨body, last, comes, -, split⟩ := Comes.of_tokenize cut
  rw [String.toList_ofList] at comes
  have closing : left ∉ last.closing := by
    intro mem
    rcases List.mem_append.1 mem with mem | mem
    · rw [List.eq_of_mem_replicate mem] at content
      cases content
    · rw [List.mem_singleton.1 mem] at content
      cases content
  obtain ⟨more, here⟩ : ∃ more, body = before ++ left :: more := by
    rcases List.append_eq_append_iff.1 split with ⟨more, rfl, same⟩ | ⟨more, rfl, same⟩
    · cases more with
      | nil =>
        rw [List.nil_append] at same
        exact absurd (same ▸ List.mem_cons_self) closing
      | cons token more =>
        cases same
        exact ⟨more, rfl⟩
    · exact absurd (same ▸ List.mem_append_right _ List.mem_cons_self) closing
  obtain ⟨earlier, ahead, behind, scan, next, c, rest, rfl, comes, here, stepped⟩ :=
    comes.cuts here
  obtain ⟨rfl, rfl, item, cuts⟩ := cutsLexeme_of_step here content stepped
  rw [List.append_nil]
  exact ⟨scan, c, rest, item, next, comes, cuts⟩

variable {c d : Char} {kind : Kind} {rest : List Char} {item : Lexeme}

/-- A text that ends with a token is the one up to the end of its lexeme. -/
theorem CutsLexeme.place (h : CutsLexeme scan c rest item left next)
    (comes : Comes (front ++ back) before scan) (place : left.span.stop = byteLength front) :
    item.spelling <:+ front ∧ back = next.cursor.rest := by
  obtain ⟨passed, at_⟩ := comes.reached.place
  have starts := (lexeme_frontOf h.read).starts
  rw [← h.here] at starts
  have stop : left.span.stop = byteLength (passed ++ item.spelling) := by
    rw [h.token, byteLength_append, ← at_.offset]
    show scan.cursor.offset + byteLength (scan.cursor.rest.take _) = _
    rw [← List.prefix_iff_eq_take.1 starts]
  have split := at_.split
  rw [h.rest_eq, ← List.append_assoc] at split
  have bytes := place.symm.trans stop
  have ends : passed ++ item.spelling <+: front ++ back := ⟨_, split.symm⟩
  obtain ⟨more, rfl⟩ := prefix_of_byteLength_le ends ⟨back, rfl⟩ (Nat.le_of_eq bytes.symm)
  have none : more = [] := by
    rw [byteLength_append _ more] at bytes
    exact byteLength_eq_zero_iff.1 (by omega)
  subst none
  rw [List.append_nil] at split ⊢
  exact ⟨List.suffix_append _ _, List.append_cancel_left split⟩

/-- Where a token touches no other one, a blank, a line break or a comment stands behind it, or
nothing. -/
theorem CutsLexeme.startsGap (h : CutsLexeme scan c rest item left next)
    (run : next.run (before ++ [left]).reverse = .ok (before ++ left :: after))
    (apart : ∀ token ∈ after.head?, token.kind.endsLine = false → left.touches token = false) :
    StartsGap next.cursor.rest := by
  intro d hd
  obtain ⟨text, here⟩ := List.head?_eq_some_iff.1 hd
  have inside : next.lineStart = false := by
    rw [h.next]
    exact h.inside
  cases front_cases d text with
  | space blank =>
    rcases (by simpa [isSpace] using blank : d = ' ' ∨ d = '\t') with rfl | rfl <;> decide
  | newline breaks =>
    rcases atLineEnd_iff.2 (.inr breaks) d rfl with rfl | rfl <;> decide
  | lineComment => decide
  | blockComment => decide
  | lexeme solid unbroken plain =>
    exfalso
    cases read : lexeme next.cursor.previous d text with
    | error e =>
      have failed := step_lexeme_eq inside solid unbroken plain
      rw [read] at failed
      rw [run_failed _ here failed] at run
      cases run
    | ok item' =>
      have stepped := step_lexeme_eq inside solid unbroken plain
      rw [read] at stepped
      rw [run_step _ here stepped] at run
      obtain ⟨more, same, -⟩ := run_ok run
      have next_token : after = next.cursor.token item'.kind item'.spelling.length :: more := by
        simpa using same
      rw [next_token] at apart
      have touches := apart _ rfl (endsLine_lexeme read unbroken)
      have joined : left.touches (next.cursor.token item'.kind item'.spelling.length) = true := by
        rw [h.token, h.next]
        exact beq_self_eq_true _
      rw [joined] at touches
      cases touches

/-- A token is cut as it was where another text stands behind it that belongs to nothing in front of
it. -/
theorem CutsLexeme.exchange {tail : List Char} (h : CutsLexeme scan c rest item left next)
    (exchanges : Exchanges next.cursor.rest tail) (some : tail ≠ [])
    (comes : Comes (front ++ next.cursor.rest) before scan) (ends : item.spelling <:+ front) :
    Comes (front ++ tail) (before ++ [left]) (next.facing tail) := by
  have unpaired : Unpaired front next.cursor.rest tail := by
    intro last
    obtain ⟨earlier, rfl⟩ := ends
    rw [List.getLast?_append_of_ne_nil _ item.spelling_ne_nil] at last
    exact absurd last (getLast?_lexeme h.read h.unbroken)
  have comes' := comes.exchange exchanges (fun none => absurd none item.spelling_ne_nil)
    (fun _ => some) unpaired h.rest_eq fun none => absurd none item.spelling_ne_nil
  have split := h.here.symm.trans h.rest_eq
  cases spelling : item.spelling with
  | nil => exact absurd spelling item.spelling_ne_nil
  | cons first r =>
    rw [spelling] at split comes' ends
    obtain ⟨rfl, rfl⟩ := List.cons.inj split
    have same := lineBreak_exchange (unpaired.suffix ends) (List.cons_ne_nil c r)
    have behind : next.cursor.rest = [] ++ next.cursor.rest := rfl
    have stepped := step_exchange_lexeme exchanges h.inside h.here h.solid h.unbroken same h.plain
      h.step behind
    exact comes'.step rfl stepped

/-- Behind the mark, the scan is where the one behind the token is moved to. -/
theorem moved_marked (mark : Punctuates c kind) (gap : StartsGap scan.cursor.rest) :
    scan.Moved (.further scan.cursor.line 1 1)
      { scan.facing (c :: scan.cursor.rest) with
        cursor := (scan.facing (c :: scan.cursor.rest)).cursor.along 1
        parens := parensAfter (scan.facing (c :: scan.cursor.rest)).parens kind } := by
  have here : (scan.facing (c :: scan.cursor.rest)).cursor.rest = c :: scan.cursor.rest := rfl
  rw [mark.parensAfter, Cursor.along_one mark here]
  refine ⟨⟨rfl, rfl, fun n => Nat.add_right_comm .., rfl, ?_, ?_, ?_, ?_⟩, rfl, rfl, rfl⟩
  · exact (if_pos rfl).symm
  · intro n
    show (if _ = _ then _ else _) = (if _ = _ then _ else _) + n
    rw [if_pos rfl, if_pos rfl, Nat.add_right_comm]
  · intro line above column
    exact if_neg (Nat.ne_of_gt above)
  · intro text hyphen
    have mem := gap '-' (by rw [hyphen]; rfl)
    simp [gapStarts] at mem

end Scan

/-- With a mark behind a token that touches no other one, a source has the same tokens and one for
the mark. -/
theorem tokenize_marked {c : Char} {kind : Kind} (mark : Punctuates c kind)
    (cut : tokenize (String.ofList (front ++ back)) = .ok (before ++ left :: after))
    (content : left.kind.endsLine = false) (place : left.span.stop = byteLength front)
    (apart : ∀ token ∈ after.head?, token.kind.endsLine = false → left.touches token = false) :
    ∃ column, tokenize (String.ofList (front ++ c :: back)) = .ok (before ++ left ::
      ⟨kind, byteLength front, byteLength front + 1, left.span.line, column⟩ ::
        after.map (·.moved (.further left.span.line 1 1))) := by
  obtain ⟨scan, first, rest, item, next, comes, cuts⟩ := Scan.exists_cutsLexeme cut content
  obtain ⟨ends, rfl⟩ := cuts.place comes place
  have run := (comes.step cuts.here cuts.step).tokenize_eq.symm.trans cut
  have gap := cuts.startsGap run apart
  have exchanges : Exchanges next.cursor.rest (c :: next.cursor.rest) := by
    refine ⟨gap.delimits, ?_, ?_⟩
    · rintro _ ⟨⟩
      exact mark.mem
    · cases mark <;> rintro ⟨⟩
  have comes' := cuts.exchange exchanges (List.cons_ne_nil _ _) comes ends
  obtain ⟨solid, unbroken, plain⟩ := mark.visible next.cursor.rest
  have inside : (next.facing (c :: next.cursor.rest)).lineStart = false := by
    rw [cuts.next]
    exact cuts.inside
  have stepped := Scan.step_lexeme_eq inside solid unbroken plain
  rw [mark.lexeme] at stepped
  have whole := (comes'.step rfl stepped).tokenize_eq
  have line : left.span.line = next.cursor.line := by
    rw [cuts.token, cuts.next]
    rfl
  have stop : next.cursor.offset = byteLength front := by
    rw [← place, cuts.token, cuts.next]
    rfl
  obtain ⟨_, run', more, same, rfl⟩ := ((next.moved_marked mark gap).run _).of_eq_ok run
  obtain rfl : after = more := by simpa using same
  have token : (next.facing (c :: next.cursor.rest)).cursor.token kind 1 =
      ⟨kind, byteLength front, byteLength front + 1, next.cursor.line, next.cursor.column⟩ := by
    unfold Cursor.token Cursor.span
    rw [Cursor.along_one mark rfl, ← stop]
    rfl
  refine ⟨next.cursor.column, whole.trans (run'.trans ?_)⟩
  rw [line, ← token]
  simp

end StylusToScss
