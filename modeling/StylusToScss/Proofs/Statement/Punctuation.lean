import StylusToScss.Proofs.Statement.Joined
import StylusToScss.Proofs.Statement.PropertyLines
import StylusToScss.Proofs.Statement.Reread
import StylusToScss.Proofs.Token.Inserted

/-!
# Colons and semicolons that may be left out

A semicolon at the end of a logical line changes nothing, and neither does a colon behind the name
of a property that is written without one (`Stylesheet.ofSource_punctuated`). The tokens of the two
sources correspond line by line (`Amends`): those in front of the line are the same, those behind it
are moved by a byte, and the line has the mark in addition.
-/

namespace StylusToScss

variable {source whole : String} {front back : List Char} {c : Char} {kind : Kind}
  {tokens before after earlier line rest name : List Token} {first left mark : Token}

/-! ## Semicolons at the end of a line -/

theorem exists_semicolons (line : List Token) : ∃ semicolons : List Token,
    (∀ token ∈ semicolons, token.kind = .semicolon) ∧
      line = withoutSemicolons line ++ semicolons := by
  refine ⟨(line.reverse.takeWhile fun token => token.kind == .semicolon).reverse, ?_, ?_⟩
  · intro token ht
    simpa using List.mem_takeWhile_imp (List.mem_reverse.1 ht)
  · rw [withoutSemicolons, ← List.reverse_append, List.takeWhile_append_dropWhile,
      List.reverse_reverse]

theorem getLast?_withoutSemicolons (line : List Token) :
    ∀ token ∈ (withoutSemicolons line).getLast?, token.kind ≠ .semicolon := by
  intro token ht
  have solid := List.head?_dropWhile_not (fun token : Token => token.kind == .semicolon)
    line.reverse
  rw [withoutSemicolons, List.getLast?_reverse, Option.mem_def] at ht
  rw [ht] at solid
  simpa using solid

theorem withoutSemicolons_of_getLast?
    (solid : ∀ token ∈ line.getLast?, token.kind ≠ .semicolon) : withoutSemicolons line = line := by
  cases reversed : line.reverse with
  | nil =>
    rw [List.reverse_eq_nil_iff.1 reversed]
    rfl
  | cons last others =>
    have isLast : line.getLast? = some last := by
      rw [← List.head?_reverse, reversed]
      rfl
    rw [withoutSemicolons, reversed,
      List.dropWhile_cons_of_neg (by simpa using solid last isLast), ← reversed,
      List.reverse_reverse]

/-! ## A token and what stands around it -/

/-- A source is cut into tokens, of which `left` is one that stands at the end of its front. -/
structure CutAt (source : String) (front back : List Char) (before : List Token) (left : Token)
    (after : List Token) : Prop where
  split : source.toList = front ++ back
  cut : tokenize source = .ok (before ++ left :: after)
  content : left.kind.endsLine = false
  place : left.span.stop = byteLength front

namespace CutAt

variable (h : CutAt source front back before left after)
include h

theorem sliced : Sliced source True (before ++ left :: after) :=
  sliced_of_tokenize h.cut (absurd trivial)

/-- What stands up to the token stands at the same place in the other source. -/
theorem copies_before {back' : List Char} (split : whole.toList = front ++ back') :
    Move.none.Copies source whole (before ++ [left]) := by
  have sliced := h.sliced
  rw [List.append_cons] at sliced
  have sliced := sliced.sublist (List.sublist_append_left (before ++ [left]) after)
  have inside : ∀ token ∈ before ++ [left], token.span.stop ≤ byteLength front := by
    intro token ht
    have head := List.head?_eq_some_head (List.ne_nil_of_mem ht)
    rw [← h.place]
    exact (sliced.within head List.getLast?_concat ht).2
  exact .ahead sliced h.split split inside

/-- What stands behind the token stands behind the mark in the other source. -/
theorem copies_after (punctuates : Punctuates c kind) (split : whole.toList = front ++ c :: back)
    (number : Nat) : (Move.further number 1 1).Copies source whole after := by
  have sliced := h.sliced
  have behind := (List.pairwise_cons.1 (List.pairwise_append.1 sliced.ordered).2.1).1
  rw [h.place] at behind
  have within : after.Sublist (before ++ left :: after) :=
    ((List.suffix_cons left after).trans (List.suffix_append before _)).sublist
  have split' : whole.toList = front ++ ([c] ++ back) := split
  have past := Move.Copies.past (sliced.sublist within) h.split split' behind number 1
  rwa [punctuates.byteLength_eq] at past

/-- The last token of the source ends a line. -/
theorem closed (behind : rest <:+ after) : ∀ token ∈ rest.getLast?, token.kind.endsLine = true := by
  intro token ht
  obtain ⟨body, last, all, ended⟩ := exists_last_of_tokenize h.cut
  obtain ⟨others, rfl⟩ := behind
  have isLast : (before ++ left :: (others ++ rest)).getLast? = some token := by
    rw [List.append_cons, ← List.append_assoc, List.getLast?_append, ht]
    rfl
  rw [all, List.getLast?_concat] at isLast
  cases isLast
  rw [ended]
  rfl

/-- The lines behind the token stand behind the mark in the other source. -/
theorem amends_after (punctuates : Punctuates c kind) (split : whole.toList = front ++ c :: back)
    (number : Nat) (behind : rest <:+ after) :
    Amends source whole rest (rest.map (·.moved (.further number 1 1))) := by
  have copies := h.copies_after punctuates split number
  have moved := Amends.behind rest
    (fun piece within _ => copies.of_isInfix (within.trans behind.isInfix)) (h.closed behind) .nil
  rwa [List.append_nil, List.append_nil] at moved

/-- The lines in front of the token are the same in the other source. -/
theorem amends_before {back' : List Char} {tokens' : List Token}
    (split : whole.toList = front ++ back') (ahead : earlier <+: before)
    (closed : ∀ token ∈ earlier.getLast?, token.kind.endsLine = true)
    (same : Amends source whole tokens tokens') :
    Amends source whole (earlier ++ tokens) (earlier ++ tokens') := by
  have within : earlier <:+: before ++ [left] := (ahead.trans (List.prefix_append _ _)).isInfix
  have copies := (h.copies_before split).of_isInfix within
  have moved := Amends.behind earlier (fun piece inner _ => copies.of_isInfix inner) closed same
  rwa [show earlier.map (·.moved .none) = earlier from List.map_id earlier] at moved

end CutAt

/-! ## Semicolons -/

/-- A list of tokens ends with a mark of lines, or with the start of a line. -/
theorem exists_lineStart (tokens : List Token) : ∃ earlier line, tokens = earlier ++ line ∧
    InLine line ∧ ∀ token ∈ earlier.getLast?, token.kind.endsLine = true := by
  obtain ⟨line, rest, split, inLine, ended⟩ := Amends.exists_line tokens.reverse
  refine ⟨rest.reverse, line.reverse, ?_, ?_, ?_⟩
  · rw [← List.reverse_append, ← split, List.reverse_reverse]
  · exact fun token ht => inLine token (List.mem_reverse.1 ht)
  · rwa [List.getLast?_reverse]

/-- A semicolon is put at the end of a line. -/
theorem CutAt.amends_semicolon (h : CutAt source front back before left after)
    (split : whole.toList = front ++ ';' :: back) (isMark : mark.kind = .semicolon) (number : Nat)
    (ended : ∀ token ∈ after.head?, token.kind.endsLine = true) :
    Amends source whole (before ++ left :: after)
      (before ++ left :: mark :: after.map (·.moved (.further number 1 1))) := by
  obtain ⟨earlier, line, rfl, inLine, closed⟩ := exists_lineStart before
  have more := h.amends_after .semicolon split number List.suffix_rfl
  have inLine' : InLine (line ++ [left]) := by
    intro token ht
    rcases List.mem_append.1 ht with ht | ht
    · exact inLine token ht
    · exact List.mem_singleton.1 ht ▸ h.content
  have copies : Move.none.Copies source whole (line ++ [left]) := by
    refine (h.copies_before split).of_isInfix ?_
    rw [List.append_assoc]
    exact (List.suffix_append _ _).isInfix
  have marks : ∀ token ∈ [mark], token.kind = .semicolon := by
    intro token ht
    rw [List.mem_singleton.1 ht, isMark]
  have unmoved (part : List Token) : part.map (·.moved .none) = part := List.map_id part
  have here : Amends source whole (line ++ [left] ++ after)
      (line ++ [left] ++ [mark] ++ after.map (·.moved (.further number 1 1))) := by
    cases line with
    | nil =>
      have marked := Amends.line inLine' copies marks ended more
      rwa [unmoved] at marked
    | cons first line =>
      have marked := Amends.line inLine' copies marks ended more
      rwa [unmoved] at marked
  have all := h.amends_before split (List.prefix_append earlier line) closed here
  simpa using all

/-! ## Colons -/

/-- The line is read as a property, and `name` is its first run and holds no colon. -/
structure BlankProperty (source : String) (first : Token) (rest name : List Token) : Prop where
  content : first.kind.endsLine = false
  read : ∃ taken segments value number, readStatement source first rest = .ok taken ∧
    taken.value = some (.property segments value number)
  run : (lineOf (first :: rest)).take (touchingRun (lineOf (first :: rest))) = name
  plain : ∀ token ∈ name, token.kind ≠ .colon

/-- The line has the form of a property and no block. -/
theorem BlankProperty.form (h : BlankProperty source first rest name) :
    ∃ line segments value number, lineOf (first :: rest) = first :: line ∧
      blockFollows (afterLine rest) = false ∧
        PropertyLine source first line (.property segments value number) := by
  obtain ⟨taken, segments, value, number, read, property⟩ := h.read
  have here := lineOf_cons h.content rest
  unfold readStatement at read
  split at read
  · cases read
    cases property
  · next start line shown =>
    rw [shown] at here
    obtain rfl := eq_of_lineOf here
    obtain ⟨node, isProperty, read⟩ := bind_eq_ok_iff.1 read
    cases read
    have same : node.value = .property segments value number := Option.some.inj property
    obtain ⟨alone, form⟩ := propertyLine_of_readNode isProperty same
    rw [same] at form
    exact ⟨line, segments, value, number, here, alone, form⟩

/-- A line divided into a name, a value and the semicolons at its end. -/
structure Divided (first : Token) (line name value semicolons : List Token) : Prop where
  split : first :: line = name ++ value
  inLine : InLine (first :: (line ++ semicolons))
  marks : ∀ token ∈ semicolons, token.kind = .semicolon
  solid : ∀ token ∈ value.getLast?, token.kind ≠ .semicolon
  some : value ≠ []

theorem Divided.cut {value semicolons : List Token}
    (h : Divided first line name value semicolons) :
    withoutSemicolons (first :: (line ++ semicolons)) = first :: line := by
  rw [← List.cons_append, withoutSemicolons_append h.marks]
  refine withoutSemicolons_of_getLast? ?_
  rw [h.split, List.getLast?_append_of_ne_nil _ h.some]
  exact h.solid

/-- A mark stands behind the name, and what is behind it has been moved. -/
theorem Divided.marked {value semicolons line' : List Token} {move : Move}
    (h : Divided first line name value semicolons) (content : mark.kind.endsLine = false)
    (here : name ++ mark :: value.map (·.moved move) = first :: line') :
    Divided first line' (name ++ [mark]) (value.map (·.moved move))
      (semicolons.map (·.moved move)) where
  split := by rw [← here, List.append_cons]
  inLine := by
    have inLine := h.inLine
    rw [← List.cons_append, h.split] at inLine
    rw [← List.cons_append, ← here]
    intro token ht
    simp only [List.mem_append, List.mem_cons, List.mem_map] at ht
    rcases ht with (ht | rfl | ⟨token, ht, rfl⟩) | ⟨token, ht, rfl⟩
    · exact inLine token (by simp [ht])
    · exact content
    · exact inLine token (by simp [ht])
    · exact inLine token (by simp [ht])
  marks token ht := by
    obtain ⟨earlier, mem, rfl⟩ := List.mem_map.1 ht
    exact h.marks earlier mem
  solid token ht := by
    rw [List.getLast?_map, Option.mem_def, Option.map_eq_some_iff] at ht
    obtain ⟨last, isLast, rfl⟩ := ht
    exact h.solid last isLast
  some := mt List.map_eq_nil_iff.1 h.some

/-- The line of a property without a colon is divided behind its first run. -/
theorem BlankProperty.divided (h : BlankProperty source first rest name)
    (here : name ++ after = first :: rest) : ∃ line value semicolons behind segments result number,
      after = value ++ semicolons ++ behind ∧ Divided first line name value semicolons ∧
        (∀ token ∈ behind.head?, token.kind.endsLine = true) ∧ blockFollows behind = false ∧
          (first :: line).take (touchingRun (first :: line)) = name ∧ IsRun name value ∧
            PropertyLine source first line (.property segments result number) := by
  obtain ⟨line, segments, result, number, shown, alone, form⟩ := h.form
  have run := h.run
  rw [shown] at run
  obtain ⟨others, behind, rfl, inLine, ended⟩ := Amends.exists_line rest
  have inLine' : InLine (first :: others) := List.forall_mem_cons.2 ⟨h.content, inLine⟩
  obtain ⟨shown', behind_eq⟩ := inLine'.cut ended
  rw [List.cons_append, shown] at shown'
  rw [List.cons_append, afterLine_cons h.content] at behind_eq
  rw [behind_eq] at alone
  obtain ⟨semicolons, marks, cut⟩ := exists_semicolons (first :: others)
  have last := getLast?_withoutSemicolons (first :: others)
  rw [← shown'] at cut last
  have both := List.take_append_drop (touchingRun (first :: line)) (first :: line)
  obtain ⟨anchor, read⟩ := form.run (run.symm ▸ h.plain)
  have isRun := isRun_take (List.cons_ne_nil first line)
  rw [run] at both read isRun
  generalize (first :: line).drop (touchingRun (first :: line)) = value at both read isRun
  have some := ne_nil_of_propertyOf read
  refine ⟨line, value, semicolons, behind, segments, result, number, ?_, ?_, ended, alone, run,
    isRun, form⟩
  · rw [← List.cons_append, cut, ← both, List.append_assoc, List.append_assoc] at here
    rw [List.append_assoc]
    exact List.append_cancel_left here
  · rw [← both, List.getLast?_append_of_ne_nil _ some] at last
    rw [cut, List.cons_append] at inLine'
    exact ⟨both.symm, inLine', marks, last, some⟩

theorem BlankProperty.isPrefix (h : BlankProperty source first rest name) :
    name <+: first :: rest :=
  h.run ▸ (List.take_prefix _ _).trans (lineOf_isPrefix _)

/-- The last token of the name does not touch the value. -/
theorem BlankProperty.last (h : BlankProperty source first rest (name ++ [left]))
    (here : name ++ [left] ++ after = first :: rest) :
    left.kind.endsLine = false ∧ ∀ next ∈ after.head?, left.touches next = false := by
  obtain ⟨line, value, semicolons, _, _, _, _, rfl, divided, -, -, -, isRun, -⟩ := h.divided here
  constructor
  · refine divided.inLine left ?_
    rw [← List.cons_append, divided.split]
    simp
  · intro next hn
    rw [List.append_assoc, List.head?_append_of_ne_nil _ divided.some] at hn
    exact isRun.apart left List.getLast?_concat next hn

/-- A colon is put behind the name of a property that is written without one. -/
theorem CutAt.amends_colon (h : CutAt source front back (earlier ++ name) left after)
    (split : whole.toList = front ++ ':' :: back) (isMark : mark.kind = .colon)
    (starts : mark.span.start = byteLength front) (stops : mark.span.stop = byteLength front + 1)
    (closed : ∀ token ∈ earlier.getLast?, token.kind.endsLine = true)
    (here : name ++ [left] ++ after = first :: rest)
    (property : BlankProperty source first rest (name ++ [left])) (number : Nat) :
    Amends source whole (earlier ++ name ++ left :: after)
      (earlier ++ name ++ left :: mark :: after.map (·.moved (.further number 1 1))) := by
  obtain ⟨line, value, semicolons, behind, segments, result, at_, rfl, divided, ended, alone, run,
    isRun, form⟩ := property.divided here
  have touches : left.touches mark = true := by
    unfold Token.touches
    rw [h.place, starts]
    exact beq_self_eq_true _
  have apart : ∀ next ∈ value.head?, mark.touches (next.moved (.further number 1 1)) = false := by
    intro next hn
    have apart := isRun.apart left List.getLast?_concat next hn
    unfold Token.touches at apart ⊢
    rw [stops, ← h.place]
    simpa [Token.moved, Span.moved, Move.further] using apart
  have copies := h.copies_after .colon split number
  have within : name ++ [left] <:+: earlier ++ name ++ [left] := by
    rw [List.append_assoc]
    exact (List.suffix_append _ _).isInfix
  have text := (h.copies_before split).texts _ within
  rw [show (name ++ [left]).map (·.moved .none) = name ++ [left] from List.map_id _] at text
  have valued : value <:+: value ++ semicolons ++ behind := by
    rw [List.append_assoc]
    exact (List.prefix_append _ _).isInfix
  obtain ⟨line', colon, form'⟩ := form.colon run divided.split property.plain isMark touches apart
    text (copies.of_isInfix valued)
  have more := h.amends_after .colon split number (List.suffix_append (value ++ semicolons) behind)
  have divided' := divided.marked (by rw [isMark]; rfl) colon
  have same := Amends.property divided.inLine divided'.inLine divided.cut divided'.cut form.comma
    (fun _ alone => form.readNode alone) (fun _ alone => form'.readNode alone) ended alone more
  have all := h.amends_before split (List.prefix_append earlier name) closed same
  have regroup (line semicolons behind : List Token) :
      first :: (line ++ semicolons ++ behind) = first :: line ++ semicolons ++ behind := rfl
  rw [regroup, regroup, divided.split, ← colon] at all
  simpa using all

/-! ## Where a mark may stand -/

/-- A token behind which a mark may stand or not: a semicolon at the end of a logical line, and a
colon behind the name of a property that is written without one. -/
inductive MayStand (source : String) (tokens : List Token) (left : Token) : Char → Prop
  | semicolon {before after : List Token} (split : tokens = before ++ left :: after)
      (content : left.kind.endsLine = false)
      (ended : ∀ token ∈ after.head?, token.kind.endsLine = true) :
      MayStand source tokens left ';'
  | colon {before rest name : List Token} {first : Token} (split : tokens = before ++ first :: rest)
      (starts : ∀ token ∈ before.getLast?, token.kind.endsLine = true)
      (property : BlankProperty source first rest (name ++ [left])) :
      MayStand source tokens left ':'

/-- The mark is cut as a token of its own. -/
theorem CutAt.marked (h : CutAt source front back before left after)
    (punctuates : Punctuates c kind)
    (apart : ∀ token ∈ after.head?, token.kind.endsLine = false → left.touches token = false) :
    ∃ mark : Token, mark.kind = kind ∧ mark.span.start = byteLength front ∧
      mark.span.stop = byteLength front + 1 ∧ tokenize (String.ofList (front ++ c :: back)) =
        .ok (before ++ left :: mark :: after.map (·.moved (.further left.span.line 1 1))) := by
  have cut := h.cut
  rw [← String.ofList_toList (s := source), h.split] at cut
  obtain ⟨column, marked⟩ := tokenize_marked punctuates cut h.content h.place apart
  exact ⟨_, rfl, rfl, rfl, marked⟩

/-- A source ends somewhere behind each of its tokens. -/
theorem exists_cutAt (cut : tokenize source = .ok (before ++ left :: after))
    (content : left.kind.endsLine = false) :
    ∃ front back, CutAt source front back before left after := by
  have sliced : Sliced source True (before ++ left :: after) :=
    sliced_of_tokenize cut (absurd trivial)
  have slice := sliced.slices left (List.mem_append_right _ (.head _))
  obtain ⟨front, ⟨back, split⟩, place⟩ :=
    exists_prefix_of_isValid (slice?_isSome_iff.1 slice).2.2
  exact ⟨front, back, split.symm, cut, content, place⟩

/-- A semicolon behind the last token of a logical line changes nothing in the tree, and neither
does a colon behind the name of a property that is written without one. -/
theorem Stylesheet.ofSource_punctuated {source : String} {tokens : List Token} {left : Token}
    {c : Char} {sheet : Stylesheet} (read : ofSource source = .ok sheet)
    (cut : tokenize source = .ok tokens) (mayStand : MayStand source tokens left c) :
    ∃ front back, source.toList = front ++ back ∧ byteLength front = left.span.stop ∧
      ofSource (String.ofList (front ++ c :: back)) = .ok sheet := by
  obtain ⟨_, cut', read⟩ := ofSource_eq_ok_iff.1 read
  cases cut.symm.trans cut'
  cases mayStand with
  | @semicolon before after split content ended =>
    subst split
    obtain ⟨front, back, at_⟩ := exists_cutAt cut content
    obtain ⟨mark, isMark, -, -, marked⟩ := at_.marked .semicolon fun token ht inside =>
      absurd ((ended token ht).symm.trans inside) (by rintro ⟨⟩)
    have amends := at_.amends_semicolon String.toList_ofList isMark left.span.line ended
    obtain ⟨_, read', rfl⟩ := (amends.kept_readStatements _).of_eq_ok read
    exact ⟨front, back, at_.split, at_.place.symm, ofSource_eq_ok_iff.2 ⟨_, marked, read'⟩⟩
  | @colon before rest name first split starts property =>
    obtain ⟨after, here⟩ := property.isPrefix
    rw [split, ← here, List.append_assoc, ← List.append_assoc] at cut read
    obtain ⟨content, apart⟩ := property.last here
    obtain ⟨front, back, at_⟩ := exists_cutAt cut content
    obtain ⟨mark, isMark, starts', stops, marked⟩ := at_.marked .colon fun token ht _ =>
      apart token ht
    have amends := at_.amends_colon String.toList_ofList isMark starts' stops starts here property
      left.span.line
    obtain ⟨_, read', rfl⟩ := (amends.kept_readStatements _).of_eq_ok read
    exact ⟨front, back, at_.split, at_.place.symm, ofSource_eq_ok_iff.2 ⟨_, marked, read'⟩⟩

theorem exists_of_kind {node : Node} (kind : node.kind = "Property") :
    ∃ segments value number, node = .property segments value number := by
  cases node with
  | property segments value number => exact ⟨segments, value, number, rfl⟩
  | _ => simp [Node.kind] at kind

/-- A statement of the kind is a property. -/
theorem exists_property (kind : ((readStatement source first rest).toOption.bind (·.value)).map
    (·.kind) = some "Property") : ∃ taken segments value number,
      readStatement source first rest = .ok taken ∧
        taken.value = some (.property segments value number) := by
  obtain ⟨node, bound, kind⟩ := Option.map_eq_some_iff.1 kind
  obtain ⟨taken, read, value⟩ := Option.bind_eq_some_iff.1 bound
  obtain ⟨segments, result, number, rfl⟩ := exists_of_kind kind
  refine ⟨taken, segments, result, number, ?_, value⟩
  cases here : readStatement source first rest with
  | error fault =>
    rw [here] at read
    cases read
  | ok other =>
    rw [here] at read
    cases read
    rfl

/-- The name ends with a brace, and the value starts with a sign. A comment stands behind the
line. -/
theorem punctuated_property : ∃ sheet front back front' back',
    Stylesheet.ofSource "{d} +e // f" = .ok sheet ∧
    ("{d} +e // f".toList = front ++ back ∧ byteLength front = 3 ∧
      Stylesheet.ofSource (String.ofList (front ++ ':' :: back)) = .ok sheet) ∧
    "{d} +e // f".toList = front' ++ back' ∧ byteLength front' = 6 ∧
      Stylesheet.ofSource (String.ofList (front' ++ ';' :: back')) = .ok sheet := by
  have accepted : (Stylesheet.ofSource "{d} +e // f").isOk = true := by decide +kernel
  have cut : tokenize "{d} +e // f" = .ok [⟨.leftBrace, ⟨0, 1, 1, 1⟩⟩, ⟨.ident "d", ⟨1, 2, 1, 2⟩⟩,
      ⟨.rightBrace, ⟨2, 3, 1, 3⟩⟩, ⟨.plus, ⟨4, 5, 1, 5⟩⟩, ⟨.ident "e", ⟨5, 6, 1, 6⟩⟩,
      ⟨.endOfInput, ⟨11, 11, 1, 12⟩⟩] := by
    decide +kernel
  have property : BlankProperty "{d} +e // f" ⟨.leftBrace, ⟨0, 1, 1, 1⟩⟩
      [⟨.ident "d", ⟨1, 2, 1, 2⟩⟩, ⟨.rightBrace, ⟨2, 3, 1, 3⟩⟩, ⟨.plus, ⟨4, 5, 1, 5⟩⟩,
        ⟨.ident "e", ⟨5, 6, 1, 6⟩⟩, ⟨.endOfInput, ⟨11, 11, 1, 12⟩⟩]
      ([⟨.leftBrace, ⟨0, 1, 1, 1⟩⟩, ⟨.ident "d", ⟨1, 2, 1, 2⟩⟩] ++
        [⟨.rightBrace, ⟨2, 3, 1, 3⟩⟩]) :=
    ⟨rfl, exists_property (by decide +kernel), rfl, by decide⟩
  cases read : Stylesheet.ofSource "{d} +e // f" with
  | error fault =>
    rw [read] at accepted
    cases accepted
  | ok sheet =>
    obtain ⟨front, back, split, place, colon⟩ := Stylesheet.ofSource_punctuated read cut
      (.colon (List.nil_append _).symm (by rintro _ ⟨⟩) property)
    obtain ⟨front', back', split', place', semicolon⟩ := Stylesheet.ofSource_punctuated read cut
      (@MayStand.semicolon _ _ _ [_, _, _, _] _ rfl rfl (by decide))
    exact ⟨sheet, front, back, front', back', rfl, ⟨split, place, colon⟩, split', place',
      semicolon⟩

end StylusToScss
