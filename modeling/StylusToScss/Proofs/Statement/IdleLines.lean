import StylusToScss.Proofs.Statement.Joined
import StylusToScss.Proofs.Statement.Reread
import StylusToScss.Proofs.Statement.Rescaled
import StylusToScss.Proofs.Token.IdleLines

/-!
# Comments on lines of their own

A logical line of blanks and comments may be emptied (`Stylesheet.ofSource_emptied`): the source is
cut into the same kinds of tokens on the same lines, and read as the same stylesheet, or it fails
both times. The tokens in front of the line are the same, and those behind it are moved, so the two
sources correspond line by line, in both directions.
-/

namespace StylusToScss

variable {source source' : String} {front line back : List Char} {move : Move}
  {tokens before more : List Token} {scan : Scan} {n : Nat}

/-- What is found elsewhere in another source is found from there, if the tokens are moved back. -/
theorem Move.Copies.restored {bare : Prop} {again : Move}
    (copies : move.Copies source source' tokens) (sliced : Sliced source bare tokens)
    (lines : again.lines = 0) (restores : ∀ piece, piece <:+: tokens →
      (piece.map (·.moved move)).map (·.moved again) = piece) :
    again.Copies source' source (tokens.map (·.moved move)) where
  lines := lines
  texts piece within := by
    obtain ⟨earlier, part, rfl⟩ := exists_part_of_map within
    obtain ⟨text, raw, -⟩ := (sliced.sublist part.sublist).rawText
    obtain ⟨_, raw', rfl⟩ := (copies.texts earlier part).of_eq_ok raw
    rw [restores earlier part, raw, raw']
    exact .ok rfl

/-- The tokens of a source and those of one with a line in addition, which cuts none. -/
structure Emptied (source source' : String) (front line back : List Char)
    (before more : List Token) : Prop where
  split : source.toList = front ++ back
  split' : source'.toList = front ++ (line ++ back)
  cut : tokenize source = .ok (before ++ more)
  closed : ∀ token ∈ before.getLast?, token.kind.endsLine = true
  inside : ∀ token ∈ before, token.span.stop ≤ byteLength front
  outside : ∀ token ∈ more, byteLength front ≤ token.span.start

namespace Emptied

variable (h : Emptied source source' front line back before more)
include h

theorem sliced : Sliced source True (before ++ more) :=
  sliced_of_tokenize h.cut (absurd trivial)

/-- The last token of the source ends a line. -/
theorem ended : ∀ token ∈ more.getLast?, token.kind.endsLine = true := by
  intro token ht
  obtain ⟨body, last, all, ended⟩ := exists_last_of_tokenize h.cut
  have isLast : (before ++ more).getLast? = some token := by
    rw [List.getLast?_append, ht]
    rfl
  rw [all, List.getLast?_concat] at isLast
  cases isLast
  rw [ended]
  rfl

theorem copies_before : Move.none.Copies source source' before :=
  .ahead (h.sliced.sublist (List.sublist_append_left _ _)) h.split h.split' h.inside

theorem copies_more (number characters : Nat) :
    (Move.further number (byteLength line) characters).Copies source source' more :=
  .past (h.sliced.sublist (List.sublist_append_right _ _)) h.split h.split' h.outside number
    characters

/-- The lines of the source stand in the other one. -/
theorem amends (number characters : Nat) : Amends source source' (before ++ more)
    (before ++ more.map (·.moved (.further number (byteLength line) characters))) := by
  have ahead := h.copies_before
  have behind := h.copies_more number characters
  have moved := Amends.behind more (fun _ within _ => behind.of_isInfix within) h.ended .nil
  rw [List.append_nil, List.append_nil] at moved
  have all := Amends.behind before (fun _ within _ => ahead.of_isInfix within) h.closed moved
  rwa [show before.map (·.moved .none) = before from List.map_id before] at all

/-- The lines of the other source stand in this one. -/
theorem amends_back (number characters : Nat) : Amends source' source
    (before ++ more.map (·.moved (.further number (byteLength line) characters)))
    (before ++ more) := by
  have unmoved (piece : List Token) : piece.map (·.moved .none) = piece := List.map_id piece
  have ahead := h.copies_before.restored (h.sliced.sublist (List.sublist_append_left _ _)) rfl
    fun piece _ => (congrArg _ (unmoved piece)).trans (unmoved piece)
  rw [unmoved] at ahead
  obtain ⟨bound, below⟩ := exists_bound more
  have spreads := Move.spreads_further number (byteLength line) characters
  have behind : (spreads.back bound).Copies source' source _ :=
    (h.copies_more number characters).restored
      (h.sliced.sublist (List.sublist_append_right _ _)) rfl
      fun piece part => spreads.restores fun token ht => below token (part.subset ht)
  have ended : ∀ token ∈ (more.map
      (·.moved (.further number (byteLength line) characters))).getLast?,
      token.kind.endsLine = true := by
    intro token ht
    rw [List.getLast?_map, Option.mem_def, Option.map_eq_some_iff] at ht
    obtain ⟨last, isLast, rfl⟩ := ht
    exact h.ended last isLast
  have moved := Amends.behind _ (fun _ within _ => behind.of_isInfix within) ended .nil
  rw [List.append_nil, List.append_nil, spreads.restores below] at moved
  have all := Amends.behind before (fun _ within _ => ahead.of_isInfix within) h.closed moved
  rwa [unmoved] at all

end Emptied

theorem Scan.Comes.emptied_tokens (comes : Comes (front ++ (line ++ back)) before scan)
    (starts : scan.lineStart = true) (here : scan.cursor.rest = line ++ back) (idle : Idle n line)
    (ends : AtLineEnd back) (apart : front.getLast? = some '\r' → back.head? ≠ some '\n')
    (cut : tokenize (String.ofList (front ++ back)) = .ok (before ++ more)) :
    Emptied (String.ofList (front ++ back)) (String.ofList (front ++ (line ++ back))) front line
      back before more where
  split := String.toList_ofList
  split' := String.toList_ofList
  cut := cut
  closed token ht := by
    rw [comes.atLineStart starts token ht]
    rfl
  inside token ht := by
    rw [← comes.offset_eq here]
    exact (comes.reached.spans_le token ht).2
  outside := by
    have emptied := comes.emptied starts here (idle.delimits ends) ends (idle.unpaired apart)
    rw [emptied.tokenize_eq] at cut
    obtain ⟨_, same, runs⟩ := run_ok cut
    rw [List.reverse_reverse] at same
    rw [← emptied.offset_eq rfl, List.append_cancel_left same]
    exact runs.lossless.ordered.1

/-- A logical line of blanks and comments is emptied: the source is cut into the same kinds of
tokens on the same lines, and read as the same stylesheet, or it fails both times. -/
theorem Stylesheet.ofSource_emptied (comes : Scan.Comes (front ++ (line ++ back)) before scan)
    (starts : scan.lineStart = true) (here : scan.cursor.rest = line ++ back) (idle : Idle n line)
    (ends : AtLineEnd back) (meets : n ≤ 1 ∨ spaces line = scan.levels.headD 0)
    (apart : front.getLast? = some '\r' → back.head? ≠ some '\n') :
    Agree (fun tokens tokens' => tokens'.map (fun token => (token.kind, token.span.line)) =
        tokens.map fun token => (token.kind, token.span.line))
      (fun _ _ => True) (tokenize (String.ofList (front ++ back)))
      (tokenize (String.ofList (front ++ (line ++ back)))) ∧
    Agree (fun sheet sheet' => sheet' = sheet) (fun _ _ => True)
      (ofSource (String.ofList (front ++ back)))
      (ofSource (String.ofList (front ++ (line ++ back)))) := by
  have agree := agree_tokenize_idle comes starts here idle ends meets apart
  constructor
  · refine agree.mono ?_ fun _ _ _ => trivial
    rintro _ _ ⟨more, rfl, rfl⟩
    rw [List.map_append, List.map_append, List.map_map]
    exact congrArg _ (List.map_congr_left fun token _ => rfl)
  · unfold ofSource
    cases cut : tokenize (String.ofList (front ++ back)) with
    | error fault =>
      obtain ⟨fault', cut', -⟩ := agree.of_eq_error cut
      rw [cut']
      trivial
    | ok tokens =>
      obtain ⟨_, cut', more, rfl, rfl⟩ := agree.of_eq_ok cut
      have emptied : Emptied (String.ofList (front ++ back))
          (String.ofList (front ++ (line ++ back))) front line back before more :=
        comes.emptied_tokens starts here idle ends apart cut
      have there := (emptied.amends scan.cursor.line line.length).kept_readStatements
      have again := (emptied.amends_back scan.cursor.line line.length).kept_readStatements
      rw [cut']
      refine (there.agree again).map ?_
      rintro nodes _ rfl
      rfl

/-- The comment is indented further than the block around it. -/
theorem emptied_comment : ∃ sheet,
    Stylesheet.ofSource "a\n\n  b c" = .ok sheet ∧
      Stylesheet.ofSource "a\n    /* é */ \n  b c" = .ok sheet := by
  have source : String.ofList ("a\n".toList ++ ("    /* é */ ".toList ++ "\n  b c".toList)) =
      "a\n    /* é */ \n  b c" := by decide
  have source' : String.ofList ("a\n".toList ++ "\n  b c".toList) = "a\n\n  b c" := by decide
  have run : Scan.Comes ("a\n".toList ++ ("    /* é */ ".toList ++ "\n  b c".toList)) _ _ :=
    ((Scan.Comes.start.step rfl rfl).step rfl rfl).step rfl rfl
  have idle : Idle 1 "    /* é */ ".toList :=
    @Idle.block 0 "    ".toList " é ".toList " ".toList (by simp [isSpace]) (by decide)
      (by simp [Unbroken]) (.blanks (by simp [isSpace]))
  have accepted : (Stylesheet.ofSource "a\n\n  b c").isOk = true := by decide +kernel
  have ends : AtLineEnd "\n  b c".toList := by
    rintro _ ⟨⟩
    exact .inl rfl
  have agree := (Stylesheet.ofSource_emptied run rfl rfl idle ends (.inl (Nat.le_refl 1))
    (by decide)).2
  rw [source, source'] at agree
  cases read : Stylesheet.ofSource "a\n\n  b c" with
  | error fault =>
    rw [read] at accepted
    cases accepted
  | ok sheet =>
    obtain ⟨_, read', rfl⟩ := agree.of_eq_ok read
    exact ⟨_, rfl, read'⟩

end StylusToScss
