import StylusToScss.Proofs.Pieces
import StylusToScss.Proofs.Scss.Placement

/-!
# Line feeds before statements

A statement is led by as many line feeds as its line lies behind the last one accounted for, and by
one at least unless it is the first; its indentation follows. So statements without blocks that
follow each other keep their distance (`Stylesheet.convert_vertical`).
-/

namespace StylusToScss

variable {allowed : Char → Prop} {outline marks : List Mark} {node : Node}

/-! ## Statements without a block -/

/-- Whether the node is a statement without a block. -/
def Node.isPlain : Node → Bool
  | .binding _ (.definition _ _ _ _) _ _ _ => false
  | .importRule _ _ | .property _ _ _ | .ident _ _ _ _ | .binding _ _ _ _ _ | .expression _
  | .call _ _ _ | .binary _ _ _ _ | .unary _ _ _ | .literal _ | .measure _ _ _ | .boolean _ _
  | .color _ _ => true
  | _ => false

/-- A statement without a block takes one line, or two. -/
theorem Node.outline_of_isPlain (h : node.isPlain = true) :
    node.outline = [.statement node.line, .text ";"] ∨
      node.outline = [.statement node.line, .text ";", .sameStatement, .text ";"] := by
  cases node with
  | property segments value line =>
    rw [Node.outline]
    split
    · exact .inr rfl
    · exact .inl rfl
  | binding name value =>
    cases value with
    | definition => cases h
    | _ => exact .inl rfl
  | importRule | ident | expression | call | binary | unary | literal | measure | boolean | color =>
    exact .inl rfl
  | group | selector | block | arguments | params | conditional | loop | definition | unsupported =>
    cases h

/-- The texts among marks. -/
def texts : List Mark → List String
  | [] => []
  | .text s :: rest => s :: texts rest
  | _ :: rest => texts rest

theorem texts_append (a b : List Mark) : texts (a ++ b) = texts a ++ texts b := by
  induction a with
  | nil => rfl
  | cons mark rest ih => cases mark <;> simp [texts, ih]

/-- The texts of marks along an outline are inline. -/
theorem Lays.inline_texts (h : Lays allowed outline marks) :
    ∀ s ∈ texts marks, Inline allowed s.toList := by
  induction h with
  | nil => exact List.forall_mem_nil _
  | cons fills _ ih =>
    cases fills with
    | text inline ends => exact List.forall_mem_cons.2 ⟨inline, ih⟩
    | place same => exact fun s hs => ih s (by cases ‹Mark› <;> first | exact hs | cases same)

/-- Marks along a line of the outline. -/
theorem Lays.of_line {mark : Mark} {later : List Mark}
    (h : Lays allowed (mark :: .text ";" :: later) marks) (place : mark.isText = false) :
    ∃ s after, marks = mark :: .text s :: after ∧ Inline allowed s.toList ∧ [';'] <:+ s.toList ∧
      Lays allowed later after := by
  obtain ⟨more, rfl, behind⟩ := h.of_place place
  cases behind with
  | cons fills rest =>
    cases fills with
    | text inline ends => exact ⟨_, _, rfl, inline, ends, rest⟩
    | place same => cases same

/-- What a statement without a block writes outside of all blocks: its lead and its lines. -/
theorem Lays.written_plain (layout : Layout) (h : Lays allowed node.outline marks)
    (plain : node.isPlain = true) (outside : layout.depth = 0) :
    String.join (layPieces layout marks) =
        Layout.lineFeeds (layout.leadFeeds node.line) ++ "\n".intercalate (texts marks) ∧
      marks.foldl Mark.after layout = ⟨max layout.line node.line, 0, true⟩ ∧
      texts marks ≠ [] ∧ ∀ s ∈ texts marks, Inline allowed s.toList ∧ [';'] <:+ s.toList := by
  obtain ⟨reached, _, started⟩ := layout
  cases outside
  rcases node.outline_of_isPlain plain with one | two
  · rw [one] at h
    obtain ⟨s, _, rfl, inline, ends, rest⟩ := h.of_line rfl
    cases rest
    refine ⟨?_, rfl, by simp [texts], ?_⟩
    · simp [layPieces, Mark.written, texts, Layout.indentation]
    · simp only [texts, List.forall_mem_singleton]
      exact ⟨inline, ends⟩
  · rw [two] at h
    obtain ⟨s, _, rfl, inline, ends, rest⟩ := h.of_line rfl
    obtain ⟨s', _, rfl, inline', ends', rest⟩ := rest.of_line rfl
    cases rest
    refine ⟨?_, rfl, by simp [texts], ?_⟩
    · simp [layPieces, Mark.written, Mark.after, texts, Layout.indentation, String.append_assoc]
    · simp only [texts, List.forall_mem_cons]
      exact ⟨⟨inline, ends⟩, ⟨inline', ends'⟩, List.forall_mem_nil _⟩

/-! ## Leads -/

/-- The text of the marks is cut at a statement of their outline: into what stands before it, line
feeds, the indentation, and what the statement and the marks behind it write. What stands before
ends no line, so that there are no more line feeds. -/
def LedAt (allowed : Char → Prop) (marks earlier : List Mark) (line : Nat) (later : List Mark) :
    Prop :=
  ∃ before after, marks = before ++ .statement line :: after ∧ Lays allowed earlier before ∧
    Lays allowed later after ∧ (layOut before).toList.getLast? ≠ some '\n' ∧
    layOut marks = layOut before ++
      Layout.lineFeeds (max (line - accounted earlier) (if hasStatement earlier then 1 else 0)) ++
      Layout.indentation (openBlocks earlier) ++
      String.join (layPieces ⟨max (accounted earlier) line, openBlocks earlier, true⟩ after)

theorem Lays.led {earlier later : List Mark} {line : Nat} (h : Lays allowed outline marks)
    (round : Rounded outline) (split : outline = earlier ++ .statement line :: later) :
    LedAt allowed marks earlier line later := by
  obtain ⟨before, after, same, first, second, text⟩ := h.layOut_at round.balanced split rfl
  refine ⟨before, after, same, first, second, ?_, ?_⟩
  · have apart := round.apart
    rw [split, List.isChain_append] at apart
    have done : ∀ mark ∈ earlier.getLast?, mark.completes = true :=
      fun mark hm => apart.2.2 mark hm _ rfl rfl
    rcases first.ends done with rfl | ⟨front, c, hc, ends⟩
    · simp [layOut, layPieces]
    · rw [ends, List.getLast?_concat]
      rintro ⟨⟩
      simp [completers] at hc
  · rw [text, Mark.written, ← String.append_assoc]
    rfl

/-- Up to a statement outside of all blocks the text is empty or ends a line. -/
theorem Lays.starts_line {above : List Node} (h : Lays allowed (membersOutline above) marks)
    (line : Nat) :
    (layOut marks ++ Layout.lineFeeds
        ((layoutBehind (membersOutline above)).leadFeeds line)).toList = [] ∨
      ∃ text, (layOut marks ++ Layout.lineFeeds
        ((layoutBehind (membersOutline above)).leadFeeds line)).toList = text ++ ['\n'] := by
  rw [String.toList_append, Layout.lineFeeds, String.toList_ofList]
  cases feeds : (layoutBehind (membersOutline above)).leadFeeds line with
  | succ n =>
    refine .inr ⟨(layOut marks).toList ++ List.replicate n '\n', ?_⟩
    rw [List.replicate_succ', List.append_assoc]
  | zero =>
    rcases membersOutline_front above with none | ⟨first, rest, some⟩
    · rw [none] at h
      cases h
      exact .inl rfl
    · rw [some] at feeds
      simp [Layout.leadFeeds, layoutBehind, hasStatement, Mark.isStatement] at feeds

/-- What follows behind a statement starts with a line feed, or there is nothing. -/
theorem Lays.starts_feed {below : List Node} (h : Lays allowed (membersOutline below) marks)
    (line depth : Nat) :
    (String.join (layPieces ⟨line, depth, true⟩ marks)).toList = [] ∨
      ∃ rest, (String.join (layPieces ⟨line, depth, true⟩ marks)).toList = '\n' :: rest := by
  rcases membersOutline_front below with none | ⟨first, rest, some⟩
  · rw [none] at h
    cases h
    exact .inl rfl
  · rw [some] at h
    obtain ⟨after, rfl, -⟩ := h.of_place rfl
    obtain ⟨n, feeds⟩ : ∃ n, max (first - line) 1 = n + 1 := ⟨max (first - line) 1 - 1, by omega⟩
    refine .inr ?_
    rw [layPieces, String.join_cons, Mark.written, Layout.leadFeeds]
    simp only [if_true, feeds, Layout.lineFeeds, List.replicate_succ, String.toList_append,
      String.toList_ofList, List.cons_append]
    exact ⟨_, rfl⟩

/-! ## Statements that follow each other -/

/-- Two statements of a stylesheet without blocks, one on a later line than the other, with nothing
between them that is written. The first one does not lie before what is accounted for. -/
structure Stylesheet.Successive (sheet : Stylesheet) (above : List Node) (first second : Node)
    (below : List Node) : Prop where
  members : ∃ skipped, sheet.nodes = above ++ first :: (skipped ++ second :: below) ∧
    ∀ node ∈ skipped, ∃ kind line, node = .unsupported kind line
  plain_first : first.isPlain = true
  plain_second : second.isPlain = true
  reached : accounted (membersOutline above) ≤ first.line
  rising : first.line < second.line

/-- The text of the marks holds the lines of two statements, with as many line feeds between them as
the statements lie apart, and no others: if the texts are `unbroken`, all but one of these are
blank lines. -/
def SetApart (allowed : Char → Prop) (unbroken : Prop) (marks : List Mark) (above : List Node)
    (first second : Node) (below : List Node) : Prop :=
  ∃ before one two after, marks = before ++ (one ++ (two ++ after)) ∧
    Lays allowed (membersOutline above) before ∧ Lays allowed first.outline one ∧
    Lays allowed second.outline two ∧ Lays allowed (membersOutline below) after ∧
    (∀ s ∈ texts one ++ texts two, [';'] <:+ s.toList) ∧
    layOut marks = layOut before ++
      Layout.lineFeeds ((layoutBehind (membersOutline above)).leadFeeds first.line) ++
      "\n".intercalate (texts one) ++ Layout.lineFeeds (second.line - first.line) ++
      "\n".intercalate (texts two) ++ String.join (layPieces ⟨second.line, 0, true⟩ after) ∧
    (unbroken → ∃ top bottom, textLines (layOut marks).toList =
      top ++ ((texts one).map String.toList ++
        (List.replicate (second.line - first.line - 1) [] ++
          ((texts two).map String.toList ++ bottom))))

theorem SetApart.mono {unbroken unbroken' : Prop} {above below : List Node} {first second : Node}
    (h : SetApart allowed unbroken marks above first second below) (imp : unbroken' → unbroken) :
    SetApart allowed unbroken' marks above first second below := by
  obtain ⟨before, one, two, after, same, front, here, next, back, ends, text, lines⟩ := h
  exact ⟨before, one, two, after, same, front, here, next, back, ends, text,
    fun unbroken => lines (imp unbroken)⟩

section
variable {sheet : Stylesheet} {above below : List Node} {first second : Node}
  (s : sheet.Successive above first second below)
include s

theorem Stylesheet.Successive.outline_eq :
    sheet.outline = membersOutline above ++ (first.outline ++ (second.outline ++
      membersOutline below)) := by
  obtain ⟨skipped, members, unsupported⟩ := s.members
  have silent : membersOutline skipped = [] := by
    clear members
    induction skipped with
    | nil => rfl
    | cons node rest ih =>
      obtain ⟨⟨kind, line, rfl⟩, more⟩ := List.forall_mem_cons.1 unsupported
      exact ih more
  rw [Stylesheet.outline, members, membersOutline_append, membersOutline, membersOutline_append,
    silent, List.nil_append, membersOutline]

theorem Lays.setApart (h : Lays allowed sheet.outline marks) :
    SetApart allowed (∀ s ∈ texts marks, '\n' ∉ s.toList) marks above first second below := by
  rw [s.outline_eq] at h
  obtain ⟨before, _, rfl, front, rest⟩ := h.of_append
  obtain ⟨one, _, rfl, here, rest⟩ := rest.of_append
  obtain ⟨two, after, rfl, next, back⟩ := rest.of_append
  have closed := (rounded_membersOutline above).balanced
  have behind : before.foldl Mark.after .start = layoutBehind (membersOutline above) := by
    rw [front.foldl_after]
    exact foldl_after_start closed.front
  have outside : (layoutBehind (membersOutline above)).depth = 0 := by
    show openBlocks _ = 0
    rw [openBlocks, closed.whole, Nat.sub_self]
  obtain ⟨text₁, reached, some₁, lines₁⟩ := here.written_plain _ s.plain_first outside
  have line : max (layoutBehind (membersOutline above)).line first.line = first.line :=
    max_eq_right s.reached
  rw [line] at reached
  obtain ⟨text₂, reached', some₂, lines₂⟩ :=
    next.written_plain ⟨first.line, 0, true⟩ s.plain_second rfl
  have rising := s.rising
  -- the first statement has brought the account to its own line, and so the second one is led
  -- by the difference
  have distance : Layout.leadFeeds ⟨first.line, 0, true⟩ second.line =
      second.line - first.line := by
    simp only [Layout.leadFeeds, if_true]
    omega
  rw [max_eq_right rising.le] at reached'
  rw [distance] at text₂
  have whole : layOut (before ++ (one ++ (two ++ after))) = layOut before ++
      Layout.lineFeeds ((layoutBehind (membersOutline above)).leadFeeds first.line) ++
      "\n".intercalate (texts one) ++ Layout.lineFeeds (second.line - first.line) ++
      "\n".intercalate (texts two) ++
      String.join (layPieces ⟨second.line, 0, true⟩ after) := by
    rw [layOut, layPieces_append, String.join_append, behind, layPieces_append,
      String.join_append, reached, text₁, layPieces_append, String.join_append, reached', text₂]
    simp only [String.append_assoc]
    rfl
  refine ⟨before, one, two, after, rfl, front, here, next, back, ?_, whole, fun unbroken => ?_⟩
  · exact List.forall_mem_append.2 ⟨fun s hs => (lines₁ s hs).2, fun s hs => (lines₂ s hs).2⟩
  · rw [texts_append, texts_append, texts_append] at unbroken
    obtain ⟨unbroken₁, unbroken⟩ := List.forall_mem_append.1 (List.forall_mem_append.1 unbroken).2
    obtain ⟨unbroken₂, -⟩ := List.forall_mem_append.1 unbroken
    obtain ⟨top, bottom, lines⟩ := textLines_between (second.line - first.line - 1)
      (front.starts_line first.line) (back.starts_feed second.line 0) some₁ some₂ unbroken₁
      unbroken₂
    refine ⟨top, bottom, ?_⟩
    rw [← lines, whole]
    have feeds : (Layout.lineFeeds (second.line - first.line)).toList =
        '\n' :: List.replicate (second.line - first.line - 1) '\n' := by
      rw [Layout.lineFeeds, String.toList_ofList, ← List.replicate_succ]
      congr 1
      omega
    simp only [String.toList_append, feeds, List.append_assoc, List.cons_append]

end

/-! ## Stylesheets -/

/-- What a tree is converted to is the text of marks along its outline. At each statement of the
outline the text goes on with as many line feeds as the line of the statement lies behind the last
one accounted for, but with one at least behind another statement, and with the indentation of the
blocks that are open. Two statements without blocks that follow each other on rising lines outside
of all blocks stay as far apart as they are, with blank lines between them if no string of the tree,
quotes included, breaks a line. -/
theorem Stylesheet.convert_vertical {options : Options} {sheet : Stylesheet}
    {converted : Converted} (ok : sheet.convert options = .ok converted) :
    ∃ marks, ((statements ⟨options.policy, none⟩ sheet.nodes).run .start).1 = .ok marks ∧
      converted.text = layOut marks ∧ Lays (fun _ => True) sheet.outline marks ∧
      (∀ earlier line later, sheet.outline = earlier ++ .statement line :: later →
        LedAt (fun _ => True) marks earlier line later) ∧
      ∀ above first second below, sheet.Successive above first second below →
        SetApart (fun _ => True) (SpelledIn (· ≠ '\n') sheet.strings) marks above first second
          below := by
  obtain ⟨marks, walk, text, laid⟩ :=
    sheet.lays_convert (fun _ _ => trivial) (spelledIn_all _) ok
  have round : Rounded sheet.outline := rounded_membersOutline sheet.nodes
  refine ⟨marks, walk, text, laid, fun earlier line later split => laid.led round split, ?_⟩
  intro above first second below successive
  refine (laid.setApart successive).mono fun spelled => ?_
  have harmless (c : Char) (h : isHarmless c = true) : c ≠ '\n' := by
    rintro rfl
    cases h
  obtain ⟨marks', walk', -, laid'⟩ := sheet.lays_convert harmless spelled ok
  rw [walk] at walk'
  cases walk'
  intro s hs mem
  exact (laid'.inline_texts s hs).forall (fun _ h => h) (by simp) '\n' mem rfl

/-- A statement on the third line, one that is left out, and another one three lines below. -/
theorem vertical_gap : ∃ (sheet : Stylesheet) (converted : Converted) (first second : Node),
    sheet.convert ⟨.scss, .lenient⟩ = .ok converted ∧
    converted.text = "\n\na: b;\n\n\n$x: c;" ∧ sheet.Successive [] first second [] ∧
    SpelledIn (· ≠ '\n') sheet.strings ∧
    ∃ marks, converted.text = layOut marks ∧
      SetApart (fun _ => True) True marks [] first second [] := by
  obtain ⟨first, isFirst⟩ : ∃ node : Node,
    node = .property [.plain "a" 3] (.sequence [.name "b" 3] 3) 3 := ⟨_, rfl⟩
  obtain ⟨second, isSecond⟩ : ∃ node : Node, node = .binding "x" (.name "c" 6) false false 6 :=
    ⟨_, rfl⟩
  obtain ⟨sheet, isSheet⟩ : ∃ sheet : Stylesheet,
    sheet = ⟨[first, .unsupported "Media" 4, second]⟩ := ⟨_, rfl⟩
  have ok : (sheet.convert ⟨.scss, .lenient⟩).toOption =
      some ⟨"\n\na: b;\n\n\n$x: c;", [⟨"Media", 4⟩]⟩ := by
    subst isFirst isSecond isSheet
    decide +kernel
  have successive : sheet.Successive [] first second [] := by
    subst isFirst isSecond isSheet
    exact ⟨⟨[.unsupported "Media" 4], rfl, by simp⟩, rfl, rfl, by decide, by decide⟩
  have spelled : SpelledIn (· ≠ '\n') sheet.strings := by
    refine spelledIn_of_all (· != '\n') (by simp) ?_
    subst isFirst isSecond isSheet
    decide +kernel
  cases outcome : sheet.convert ⟨.scss, .lenient⟩ with
  | error e =>
    rw [outcome] at ok
    cases ok
  | ok converted =>
    rw [outcome] at ok
    cases ok
    obtain ⟨marks, -, text, -, -, apart⟩ := Stylesheet.convert_vertical outcome
    have unbroken := (apart _ _ _ _ successive).mono fun _ : True => spelled
    exact ⟨sheet, _, first, second, outcome, rfl, successive, spelled, marks, text, unbroken⟩

end StylusToScss
