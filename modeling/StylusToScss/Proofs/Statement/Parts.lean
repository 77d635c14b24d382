import StylusToScss.Proofs.Statement.Embedded
import StylusToScss.Proofs.Token.Levels
import StylusToScss.Proofs.Token.Moved

/-!
# From the scanner to the parts of a source

A scan that is come to knows how many levels are open. So the tokens in front of it, and those that
are moved from there, correspond if those behind it do (`Scan.Reached.meets`).
-/

namespace StylusToScss

variable {e : Embedding} {tokens before tail tail' : List Token} {depth : Nat} {inLine : Bool}

namespace Embedding

theorem Meets.dedents {mark mark' : Token} (kind : mark.kind = .dedent)
    (kind' : mark'.kind = .dedent) (same : e.strict → mark' = mark.moved e.move) (closed : Nat)
    (h : e.Meets inLine depth tail tail') :
    e.Meets inLine (depth + closed) (List.replicate closed mark ++ tail)
      (List.replicate closed mark' ++ tail') := by
  induction closed with
  | zero => exact h
  | succ closed ih => exact .dedent kind kind' same ih.loosen

/-- Line breaks where the part ends a line by closing levels, or ends itself. -/
theorem Meets.gaps {breaks : List Token} (lenient : ¬ e.strict)
    (newlines : ∀ token ∈ breaks, token.kind = .newline)
    (ended : ∀ token ∈ tokens.head?, token.kind = .dedent ∨ token.kind = .endOfInput)
    (h : e.Meets inLine depth tokens tail') : e.Meets inLine depth tokens (breaks ++ tail') := by
  induction breaks with
  | nil => exact h
  | cons token breaks ih =>
    obtain ⟨newline, newlines⟩ := List.forall_mem_cons.1 newlines
    exact .gap lenient newline ended (ih newlines).loosen

end Embedding

namespace Scan

variable {source : List Char} {scan next : Scan}

theorem Step.meets (step : Step scan tokens next) (h : e.Meets true next.levels.length tail tail') :
    e.Meets true scan.levels.length (tokens ++ tail) (tokens.map (·.moved e.move) ++ tail') := by
  cases step with
  | line _ _ opened =>
    cases startLine_ok opened with
    | empty => exact h
    | indent => exact .indent rfl h.loosen
    | @dedents closed fewer =>
      rw [List.map_replicate]
      rw [List.length_drop] at h
      have levels : scan.levels.length = scan.levels.length - closed + closed := by omega
      rw [levels]
      exact h.dedents rfl rfl (fun _ => rfl) closed
  | newline _ _ broken =>
    rcases breakLine_cases broken with ⟨-, rfl, rfl⟩ | ⟨-, rfl, rfl⟩
    · exact .newline rfl h.loosen
    · exact h
  | lexeme _ _ solid read => exact .content (endsLine_lexeme read solid.2) h
  | space | commentLine | commentBlock => exact h

/-- The tokens in front of a scan, and those behind it. -/
theorem Reached.meets (reached : Reached source before scan)
    (h : e.Meets true scan.levels.length tail tail') :
    e.Meets false 0 (before ++ tail) (before.map (·.moved e.move) ++ tail') := by
  induction reached generalizing tail tail' with
  | start => exact h.loosen
  | step _ _ step ih =>
    rw [List.append_assoc, List.map_append, List.append_assoc]
    exact ih (step.meets h)

end Scan

/-- The tokens of a source, up to the one that ends the input. -/
theorem exists_last_of_tokenize {source : String} (h : tokenize source = .ok tokens) :
    ∃ body last, tokens = body ++ [last] ∧ last.kind = .endOfInput := by
  obtain ⟨before, scan, -, -, rfl⟩ := Scan.Comes.of_tokenize h
  exact ⟨before ++ List.replicate scan.levels.length (scan.cursor.token .dedent 0), _,
    (List.append_assoc ..).symm, rfl⟩

/-- All tokens of the part are found in the whole, up to the one that ends the input. -/
theorem Embedding.meets_of_tokenize {source : String} {last : Token} {body beyond : List Token}
    (h : tokenize source = .ok (body ++ [last])) (more : e.more = last.moved e.move :: beyond) :
    e.Meets false 0 (body ++ [last]) (body.map (·.moved e.move) ++ e.more) := by
  obtain ⟨before, scan, comes, -, rfl, rfl⟩ := Scan.Comes.of_tokenize_last h
  have ends : e.Meets true 0 [scan.cursor.token .endOfInput 0] e.more := by
    refine .ends rfl (fun _ => ⟨beyond, more⟩) fun _ next hn => ?_
    rw [more] at hn
    cases hn
    rfl
  have dedent : (scan.cursor.token .dedent 0).kind = .dedent := rfl
  have dedent' : ((scan.cursor.token .dedent 0).moved e.move).kind = .dedent := rfl
  have closing := ends.dedents dedent dedent' (fun _ => rfl) scan.levels.length
  rw [Nat.zero_add] at closing
  rw [List.append_assoc, List.map_append, List.append_assoc, List.map_replicate]
  exact comes.reached.meets closing

/-- The part with all of its tokens, of which the last one ends the whole too. -/
def Embedding.entire (part whole : String) (move : Move) (last : Token)
    (ended : last.kind = .endOfInput) (strict : Prop) (unmoved : strict → move.Still) :
    Embedding where
  part := part
  whole := whole
  move := move
  more := [last.moved move]
  starts := by
    rintro token ⟨⟩
    simp [ended, Kind.isWord]
  strict := strict
  unmoved := unmoved

/-- The statements that the tokens of a part write in the whole are those of the part, raised. -/
theorem Embedding.carries_entire {part whole : String} {move : Move} {last : Token}
    {body : List Token} {strict : Prop} {unmoved : strict → move.Still}
    (cut : tokenize part = .ok (body ++ [last])) (ended : last.kind = .endOfInput)
    (texts : ∀ piece ∈ sourceTexts false (body ++ [last]),
      (entire part whole move last ended strict unmoved).SameText piece) :
    Carries strict (fun nodes nodes' => nodes' = raisedNodes move.lines nodes)
      (readStatements part (body ++ [last]))
      (readStatements whole ((body ++ [last]).map (·.moved move))) := by
  let e := entire part whole move last ended strict unmoved
  have ended' : (last.moved move).kind = .endOfInput := ended
  have behind : readStatements whole e.more = .ok [] :=
    readStatements_ends (skipNewlines_of_ne (by simp [ended])) ended'
  have meets := e.meets_of_tokenize cut rfl
  rw [List.map_append]
  refine (e.carries_readStatements _ meets texts behind).mono ?_
  rintro nodes _ rfl
  exact List.append_nil _

/-! ## Texts -/

/-- A text is cut out of both sources alike, if it is a slice of both. -/
theorem Embedding.sameText {bare : Prop} {piece : List Token} (h : Sliced e.part bare piece)
    (kept : ∀ first ∈ piece.head?, ∀ last ∈ piece.getLast?, ∀ text,
      slice? e.part first.span.start last.span.stop = some text →
        slice? e.whole (e.move.offset first.span.start) (e.move.offset last.span.stop) =
          some text) : e.SameText piece := by
  obtain ⟨text, read, -⟩ := h.rawText
  show Carries _ _ (rawText e.part piece) _
  rw [read]
  refine ⟨text, ?_, rfl⟩
  cases piece with
  | nil => exact read
  | cons first rest =>
    have ends : (first :: rest).getLast?.isSome := List.getLast?_isSome.2 (List.cons_ne_nil _ _)
    obtain ⟨last, hl⟩ := Option.isSome_iff_exists.1 ends
    unfold rawText at read ⊢
    rw [hl] at read
    rw [List.getLast?_map, hl]
    simp only [List.head?_cons, List.map_cons, Option.map_some] at read ⊢
    cases slice : slice? e.part first.span.start last.span.stop with
    | none =>
      rw [slice] at read
      cases read
    | some text =>
      rw [slice] at read
      cases read
      have slice' := kept first rfl last hl text slice
      rw [show slice? e.whole (first.moved e.move).span.start (last.moved e.move).span.stop =
        some text from slice']

end StylusToScss
