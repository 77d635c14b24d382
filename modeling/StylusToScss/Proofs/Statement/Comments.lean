import StylusToScss.Proofs.Statement.Parts
import StylusToScss.Proofs.Token.Blanks

/-!
# Comments are not read

A block comment inside a line is read as blanks in its place are: the stylesheet is the same, and so
is the failure if there is none (`Stylesheet.ofSource_blanked`). The texts that are cut out of the
source as they stand are excepted, since a comment inside of one is a part of it: no line of
selectors, name of a property or path without quotes may reach over the comment.
-/

namespace StylusToScss

variable {front body back : List Char}

/-- The tokens stand before this stretch of the source, or behind it. -/
def AwayFrom (start stop : Nat) (piece : List Token) : Prop :=
  (∀ token ∈ piece, token.span.stop ≤ start) ∨ ∀ token ∈ piece, stop ≤ token.span.start

/-- A text that does not reach over the blanks is the same in both sources. -/
theorem slice?_commented {text : String} {start stop : Nat}
    (h : slice? (String.ofList (blanked front body back)) start stop = some text)
    (away : stop ≤ byteLength front ∨ byteLength front + (comment body).length ≤ start) :
    slice? (String.ofList (commented front body back)) ((pastComment front body).offset start)
      ((pastComment front body).offset stop) = some text := by
  have ordered := (slice?_isSome_iff.1 (Option.isSome_of_eq_some h)).1
  rcases away with ahead | behind
  · rw [pastComment_front (Nat.le_trans ordered ahead), pastComment_front ahead]
    exact slice?_front String.toList_ofList String.toList_ofList ahead h
  · have split : (String.ofList (blanked front body back)).toList =
        (front ++ blanks body) ++ back := by
      rw [String.toList_ofList, blanked, List.append_assoc]
    have split' : (String.ofList (commented front body back)).toList =
        (front ++ comment body) ++ back := by
      rw [String.toList_ofList, commented, List.append_assoc]
    rw [← byteLength_blanks] at behind
    obtain ⟨m, rfl⟩ := Nat.exists_eq_add_of_le behind
    obtain ⟨n, rfl⟩ := Nat.exists_eq_add_of_le (Nat.le_trans behind ordered)
    rw [← byteLength_append] at h
    rw [pastComment_back, pastComment_back, ← byteLength_append]
    exact slice?_back split split' h

namespace Stylesheet

/-- A source is read as it is with blanks in the place of a comment that stands behind a token of
its line, unless a text that is cut out of the source reaches over the comment. -/
theorem ofSource_blanked {before : List Token} {left : Token} {scan : Scan}
    (comes : Scan.Comes (commented front body back) (before ++ [left]) scan)
    (here : scan.cursor.rest = comment body ++ back) (content : left.kind.endsLine = false)
    (closes : ¬ ['*', '/'] <:+: body) (oneLine : '\n' ∉ body)
    (unsigned : ∀ rest, back = '-' :: rest → Lexeme.startsNumber rest = false)
    (away : ∀ tokens, tokenize (String.ofList (blanked front body back)) = .ok tokens →
      ∀ piece ∈ sourceTexts false tokens,
        AwayFrom (byteLength front) (byteLength front + (comment body).length) piece) :
    ofSource (String.ofList (commented front body back)) =
      ofSource (String.ofList (blanked front body back)) := by
  have cut := (carries_tokenize_blanked comes here content closes oneLine unsigned).eq_map
  unfold ofSource
  cases blanks : tokenize (String.ofList (blanked front body back)) with
  | error fault =>
    rw [cut, blanks]
    rfl
  | ok tokens =>
    have sliced : Sliced (String.ofList (blanked front body back)) True tokens :=
      sliced_of_tokenize blanks (absurd trivial)
    obtain ⟨tokens, last, rfl, ended⟩ := exists_last_of_tokenize blanks
    have texts : ∀ piece ∈ sourceTexts false (tokens ++ [last]),
        (Embedding.entire (String.ofList (blanked front body back))
          (String.ofList (commented front body back)) (pastComment front body) last ended True
          fun _ => rfl).SameText piece := by
      intro piece hp
      have part := sliced.sublist (sublist_of_mem_sourceTexts hp)
      refine Embedding.sameText part fun first hf last hl text slice => ?_
      have memf := List.mem_of_head? hf
      have meml := List.mem_of_getLast? hl
      refine slice?_commented slice ?_
      rcases away _ blanks piece hp with ahead | behind
      · exact .inl (ahead last meml)
      · exact .inr (behind first memf)
    have statements := (Embedding.carries_entire blanks ended texts).mono fun nodes _ same =>
      same.trans (raisedNodes_zero nodes)
    rw [cut, blanks]
    show ofTokens _ _ = ofTokens _ _
    unfold ofTokens
    rw [statements.eq]

/-- The comment holds marks that mean something in a selector, and stands inside a value. -/
theorem ofSource_comment_in_value :
    ofSource "a\n  b: c /* ; \x7b */ d" = ofSource "a\n  b: c           d" := by
  have source : String.ofList (commented "a\n  b: c ".toList " ; \x7b ".toList " d".toList) =
      "a\n  b: c /* ; \x7b */ d" := by decide
  have source' : String.ofList (blanked "a\n  b: c ".toList " ; \x7b ".toList " d".toList) =
      "a\n  b: c           d" := by decide
  have run : Scan.Comes (commented "a\n  b: c ".toList " ; \x7b ".toList " d".toList) _ _ :=
    (((((((((Scan.Comes.start.step rfl rfl).step rfl rfl).step rfl rfl).step rfl rfl).step rfl
      rfl).step rfl rfl).step rfl rfl).step rfl rfl).step rfl rfl)
  have comes : Scan.Comes (commented "a\n  b: c ".toList " ; \x7b ".toList " d".toList)
      ([⟨.ident "a", ⟨0, 1, 1, 1⟩⟩, ⟨.newline, ⟨1, 2, 1, 3⟩⟩, ⟨.indent, ⟨4, 4, 2, 3⟩⟩,
        ⟨.ident "b", ⟨4, 5, 2, 3⟩⟩, ⟨.colon, ⟨5, 6, 2, 4⟩⟩] ++ [⟨.ident "c", ⟨7, 8, 2, 6⟩⟩])
      ⟨⟨some ' ', "/* ; \x7b */ d".toList, 9, 2, 8⟩, [2], 0, false⟩ := run
  have texts : (tokenize "a\n  b: c           d").map (sourceTexts false) =
      .ok [[⟨.ident "a", ⟨0, 1, 1, 1⟩⟩], [⟨.ident "b", ⟨4, 5, 2, 3⟩⟩]] := by decide +kernel
  rw [← source, ← source']
  refine ofSource_blanked comes (by decide) rfl (by decide) (by decide) nofun fun tokens cut => ?_
  rw [source'] at cut
  rw [cut] at texts
  rw [Except.ok.inj texts]
  simp only [List.forall_mem_cons, AwayFrom]
  decide

end Stylesheet
end StylusToScss
