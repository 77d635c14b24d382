import StylusToScss.Proofs.Token.Exchange
import StylusToScss.Proofs.Token.Moved

/-!
# Two sources, one behind the other

Behind a line feed, a second source is cut into its own tokens, moved (`tokenize_joined`). Only the
levels that are still open at the end of the first source are closed later: not before the first
line of the second one that holds a lexeme. Up to there, the second source cuts nothing but line
breaks (`Scan.Leads`).
-/

namespace StylusToScss

variable {move : Move}

/-- Behind so many bytes and lines. -/
def Move.behind (bytes lines : Nat) : Move :=
  ⟨(bytes + ·), lines, fun _ column => column, Nat.add_left_cancel⟩

namespace Scan

variable {scan scan' : Scan} {outer : List Nat} {tokens cut : List Token}

/-- No lexeme has come yet: at the first scan no level is open, and at the second one, which is
where the first is moved to, these levels of an earlier text are. -/
structure Leads (move : Move) (outer : List Nat) (scan scan' : Scan) : Prop where
  cursor : scan.cursor.Moved move scan'.cursor
  levels : scan.levels = []
  levels' : scan'.levels = outer
  parens : scan.parens = 0
  parens' : scan'.parens = 0
  lineStart : scan'.lineStart = scan.lineStart
  ended : scan.lineStart = false → scan.cursor.rest = [] ∨ lineBreak scan.cursor.rest ≠ 0

/-- A line that is not indented closes all levels. -/
theorem reindent_zero (positive : ∀ level ∈ outer, 0 < level) :
    reindent outer 0 = some (List.replicate outer.length .dedent, []) := by
  have kept : outer.dropWhile (0 < ·) = [] := by
    rw [List.dropWhile_eq_nil_iff]
    simpa using positive
  unfold reindent
  rw [if_neg (Nat.not_lt_zero _)]
  simp only [kept]
  rfl

/-- What the second source cuts, and what is cut of it behind the first one: line breaks, then the
levels that are open are closed, and then comes the rest. Or the second source starts with a line
that is indented. -/
def JoinsTo (move : Move) (outer : List Nat) (tokens : List Token)
    (joined : Except (Located LexFault) (List Token)) (cut' : List Token) : Prop :=
  ∃ breaks rest, (∀ token ∈ breaks, token.kind = .newline) ∧ tokens = breaks ++ rest ∧
    ((∃ token ∈ rest.head?, token.kind = .indent) ∨ ∃ mark : Token, mark.kind = .dedent ∧
      joined = .ok (cut'.reverse ++ (breaks.map (·.moved move) ++
        (List.replicate outer.length mark ++ rest.map (·.moved move)))))

/-- The start of a line: it is empty in both texts, or opens a level, or closes all of the levels
that are open behind the first source. -/
theorem Leads.startLine {first first' : Cursor} {next : Scan} (h : scan.Leads move outer scan')
    (positive : ∀ level ∈ outer, 0 < level) (hf : first.Moved move first')
    (opened : scan.startLine first = .ok (tokens, next)) :
    (∃ token, tokens = [token] ∧ token.kind = .indent) ∨ tokens = [] ∧ ∃ next' : Scan,
      (scan'.startLine first' = .ok ([], next') ∧ next.Leads move outer next' ∨
        scan'.startLine first' =
          .ok (List.replicate outer.length (first'.token .dedent 0), next') ∧
        next.Moved move next') := by
  unfold Scan.startLine at opened ⊢
  rw [hf.rest, h.cursor.rest, h.levels']
  rw [h.levels] at opened
  by_cases ended : first.rest = [] ∨ lineBreak first.rest ≠ 0
  · rw [if_pos ended] at opened ⊢
    cases opened
    exact .inr ⟨rfl, _, .inl ⟨rfl, hf, rfl, rfl, h.parens, h.parens', rfl, fun _ => ended⟩⟩
  · rw [if_neg ended] at opened ⊢
    cases width : spaces scan.cursor.rest with
    | zero =>
      rw [width] at opened
      cases opened
      refine .inr ⟨rfl, { scan' with cursor := first', levels := [], lineStart := false },
        .inr ⟨?_, hf, rfl, h.parens'.trans h.parens.symm, rfl⟩⟩
      simp only [reindent_zero positive, List.map_replicate]
    | succ n =>
      rw [width] at opened
      cases opened
      exact .inl ⟨_, rfl, rfl⟩

/-- The end of an empty line. -/
theorem Leads.breakLine {next : Scan} (h : scan.Leads move outer scan')
    (breaks : lineBreak scan.cursor.rest ≠ 0)
    (broken : scan.breakLine (lineBreak scan.cursor.rest) = (tokens, next)) :
    ∃ token next', tokens = [token] ∧ token.kind = .newline ∧
      scan'.breakLine (lineBreak scan.cursor.rest) = ([token.moved move], next') ∧
      next.Leads move outer next' := by
  unfold Scan.breakLine at broken ⊢
  rw [if_pos h.parens] at broken
  rw [if_pos h.parens']
  cases broken
  rw [h.cursor.breakToken (byteLength_lineBreak breaks)]
  exact ⟨_, _, rfl, rfl, rfl, h.cursor.nextLine _, h.levels, h.levels', h.parens, h.parens', rfl,
    nofun⟩

theorem Leads.run (h : scan.Leads move outer scan') (positive : ∀ level ∈ outer, 0 < level)
    (cut' : List Token) (done : scan.run cut = .ok tokens) :
    ∃ more, tokens = cut.reverse ++ more ∧ JoinsTo move outer more (scan'.run cut') cut' := by
  fun_induction Scan.run scan cut generalizing scan' cut' with
  | case1 scan cut ended =>
    cases done
    refine ⟨_, rfl, [], scan.closing, List.forall_mem_nil _, rfl,
      .inr ⟨scan'.cursor.token .dedent 0, rfl, ?_⟩⟩
    rw [run_done cut' (h.cursor.rest.trans ended), closing, closing, h.levels, h.levels',
      h.cursor.token, h.cursor.token]
    rfl
  | case2 => cases done
  | case3 scan cut c rest here opened next stepped ih =>
    have here' := h.cursor.rest.trans here
    cases starts : scan.lineStart with
    | true =>
      rw [step_line starts] at stepped
      obtain ⟨first, indented, started⟩ := bind_eq_ok_iff.1 stepped
      obtain ⟨first', indented', hf⟩ := h.cursor.behindSpaces.indentation.of_eq_ok indented
      have step' {moved : List Token × Scan} (started' : scan'.startLine first' = .ok moved) :
          scan'.step c rest = .ok moved := by
        rw [step_line (h.lineStart.trans starts)]
        exact bind_eq_ok_iff.2 ⟨first', indented', started'⟩
      rcases h.startLine positive hf started with ⟨token, rfl, kind⟩ | ⟨rfl, next', next | next⟩
      · obtain ⟨more, rfl, -⟩ := run_ok done
        refine ⟨token :: more, by simp, [], token :: more, List.forall_mem_nil _, rfl, .inl ?_⟩
        exact ⟨token, rfl, kind⟩
      · obtain ⟨started', leads⟩ := next
        rw [run_step cut' here' (step' started')]
        exact ih leads cut' done
      · obtain ⟨started', moved⟩ := next
        rw [run_step cut' here' (step' started')]
        obtain ⟨_, done', more, rfl, rfl⟩ := (moved.run _).of_eq_ok done
        refine ⟨more, rfl, [], more, List.forall_mem_nil _, rfl,
          .inr ⟨first'.token .dedent 0, rfl, done'.trans ?_⟩⟩
        simp
    | false =>
      have breaks : lineBreak (c :: rest) ≠ 0 := by
        rcases h.ended starts with none | breaks
        · rw [here] at none
          cases none
        · rwa [here] at breaks
      rw [step_newline starts breaks, ← here] at stepped
      rw [← here] at breaks
      obtain ⟨token, next', rfl, kind, broken', leads⟩ := h.breakLine breaks (Except.ok.inj stepped)
      have step' : scan'.step c rest = .ok ([token.moved move], next') := by
        rw [here] at breaks broken'
        rw [step_newline (h.lineStart.trans starts) breaks, broken']
      obtain ⟨_, rfl, breaks', rest', newlines, rfl, joins⟩ :=
        ih leads ([token.moved move] ++ cut') done
      refine ⟨token :: (breaks' ++ rest'), by simp, token :: breaks', rest',
        List.forall_mem_cons.2 ⟨kind, newlines⟩, rfl, joins.imp_right ?_⟩
      rintro ⟨mark, isDedent, joined⟩
      refine ⟨mark, isDedent, (run_step cut' here' step').trans (joined.trans ?_)⟩
      simp

/-- On an empty line, the scanner comes to the line feed that ends it. -/
theorem Comes.emptyLine {source text : List Char} {before : List Token}
    (comes : Comes source before scan) (here : scan.cursor.rest = '\n' :: text) :
    Comes source before { scan with lineStart := false } := by
  cases starts : scan.lineStart with
  | false => rwa [← starts]
  | true =>
    have blanks : scan.cursor.behindSpaces = scan.cursor := by
      unfold Cursor.behindSpaces
      rw [here]
      rfl
    have plain : ¬ StartsComment scan.cursor.behindSpaces.rest := by
      rw [blanks, here]
      rintro ⟨_, h | h⟩ <;> cases h
    have step : scan.step '\n' text = .ok ([], { scan with lineStart := false }) := by
      rw [step_line starts, Cursor.indentation_plain plain, blanks, ok_bind, Scan.startLine, if_pos]
      rw [here]
      exact .inr Nat.one_ne_zero
    rw [← List.append_nil before]
    exact comes.step here step

/-- A line feed outside parentheses is cut as a line break, also on an empty line. -/
theorem Comes.lineFeed {source text : List Char} {before : List Token}
    (comes : Comes source before scan) (here : scan.cursor.rest = '\n' :: text)
    (outside : scan.parens = 0) : Comes source (before ++ [scan.cursor.breakToken 1])
      { scan with cursor := scan.cursor.nextLine 1, lineStart := true } := by
  have breaks : lineBreak ('\n' :: text) ≠ 0 := Nat.one_ne_zero
  refine (comes.emptyLine here).step here ((step_newline rfl breaks).trans ?_)
  exact congrArg Except.ok (if_pos outside)

/-- Behind the first source, the line feed is cut, and the scan is where the one at the start of the
second source is moved to. -/
theorem Comes.leads {first second : List Char} {before : List Token}
    (comes : Comes first before scan) (ended : scan.cursor.rest = []) (outside : scan.parens = 0)
    (unpaired : first.getLast? ≠ some '\r') :
    ∃ (gap : Token) (next : Scan), gap.kind = .newline ∧
      Comes (first ++ '\n' :: second) (before ++ [gap]) next ∧
      (Scan.start second).Leads (.behind (byteLength first + 1) scan.cursor.line) scan.levels
        next := by
  have exchanges : Exchanges [] ('\n' :: second) := by
    constructor
    · rintro c ⟨⟩
    · rintro c ⟨⟩
      decide
    · rintro ⟨⟩
  have alike : EndsAlike [] [] ('\n' :: second) := by
    rintro - - c ⟨⟩
    exact .inl rfl
  have comes' : Comes (first ++ '\n' :: second) before (scan.facing ('\n' :: second)) := by
    rw [← List.append_nil first] at comes
    exact comes.exchange (r := []) exchanges alike (fun _ => List.cons_ne_nil _ _)
      (absurd · unpaired) ended fun _ => .inl nofun
  have offset : scan.cursor.offset = byteLength first := by
    obtain ⟨passed, place⟩ := comes.reached.place
    rw [place.offset, place.split, ended, List.append_nil]
  refine ⟨_, _, rfl, comes'.lineFeed rfl outside,
    ⟨rfl, ?_, ?_, ?_, rfl, fun _ => rfl, fun _ _ _ => rfl, ?_⟩, rfl, rfl, rfl, outside, rfl, nofun⟩
  · show scan.cursor.offset + 1 = _
    rw [offset]
    rfl
  · exact fun n => (Nat.add_assoc ..).symm
  · exact Nat.add_comm _ _
  · exact fun _ _ _ => rfl

/-- Open levels are indented. -/
theorem Comes.levels_pos {source : List Char} {before : List Token}
    (comes : Comes source before scan) : ∀ level ∈ scan.levels, 0 < level := by
  have reached : Reached (String.ofList source).toList before scan := by
    rw [String.toList_ofList]
    exact comes.reached
  have descending := (List.pairwise_append.1 reached.leveled.descending).2.2
  exact fun level hl => descending level hl 0 (List.mem_singleton.2 rfl)

end Scan

/-- The tokens of two sources that are joined by a line feed. -/
theorem tokenize_joined {first second : List Char} {before tokens : List Token} {scan : Scan}
    (comes : Scan.Comes first before scan) (ended : scan.cursor.rest = [])
    (outside : scan.parens = 0) (unpaired : first.getLast? ≠ some '\r')
    (cut : tokenize (String.ofList second) = .ok tokens) : ∃ gap : Token, gap.kind = .newline ∧
      Scan.JoinsTo (.behind (byteLength first + 1) scan.cursor.line) scan.levels tokens
        (tokenize (String.ofList (first ++ '\n' :: second))) (before ++ [gap]).reverse := by
  obtain ⟨gap, next, newline, comes', leads⟩ := comes.leads ended outside unpaired
  rw [tokenize, String.toList_ofList] at cut
  obtain ⟨_, rfl, joins⟩ := leads.run comes.levels_pos (before ++ [gap]).reverse cut
  rw [comes'.tokenize_eq]
  exact ⟨gap, newline, joins⟩

end StylusToScss
