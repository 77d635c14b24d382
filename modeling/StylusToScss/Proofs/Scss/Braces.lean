import StylusToScss.Proofs.Scss.Placement

/-!
# Braces and indentation

The braces of a text are those of blocks and those around interpolated names, as long as the strings
of the tree hold none. So they are balanced, and each closing brace stands where it should: behind a
name, or first on its line, indented as the blocks that stay open (`Braced`). The same number of
blocks indents statements, and what else starts a line (`Stylesheet.convert_braced`).
-/

namespace StylusToScss

variable {text more : List Char} {blocks : Nat} {outline marks : List Mark}

/-! ## Texts -/

/-- The character is a brace. -/
def isBrace (c : Char) : Bool := c == '\x7b' || c == '\x7d'

/-- A text without braces but around names. -/
abbrev Bare (text : List Char) : Prop := Inline (fun c => isBrace c = false) text

/-- The number of braces that are open behind a text. -/
def openBraces (text : List Char) : Nat := text.count '\x7b' - text.count '\x7d'

/-- The text ends with the start of an interpolation and a name without braces. -/
def ClosesName (front : List Char) : Prop :=
  ∃ above name, front = above ++ '#' :: '\x7b' :: name ∧ ∀ c ∈ name, isBrace c = false

/-- The last line of the text is nothing but the indentation of this depth. -/
def Indented (depth : Nat) (text : List Char) : Prop :=
  ∃ above, text = above ++ List.replicate (2 * depth) ' ' ∧ ∀ c ∈ above.getLast?, c = '\n'

/-- A closing brace behind one of two texts. -/
theorem brace_of_append {front back : List Char} (h : text ++ more = front ++ '\x7d' :: back) :
    (∃ rest, text = front ++ '\x7d' :: rest) ∨
      ∃ w, front = text ++ w ∧ more = w ++ '\x7d' :: back := by
  rcases List.append_eq_append_iff.1 h with ⟨w, rfl, same⟩ | ⟨rest, rfl, same⟩
  · exact .inr ⟨w, rfl, same⟩
  · cases rest with
    | nil => exact .inr ⟨[], by simp, same.symm⟩
    | cons c rest =>
      cases same
      exact .inl ⟨rest, rfl⟩

theorem not_mem_of_bare {c : Char} {l : List Char} (brace : isBrace c = true)
    (h : ∀ c ∈ l, isBrace c = false) : c ∉ l := by
  intro mem
  rw [h c mem] at brace
  cases brace

theorem Inline.balanced (h : Bare text) : Balanced '\x7b' '\x7d' text := by
  induction h with
  | nil => exact .nil
  | @char c rest bare _ ih =>
    have one : ∀ d ∈ [c], isBrace d = false := by simp [bare]
    exact (Balanced.of_not_mem (not_mem_of_bare rfl one) (not_mem_of_bare rfl one)).append ih
  | @interpolation name rest bare _ ih =>
    have inside : Balanced '\x7b' '\x7d' name :=
      .of_not_mem (not_mem_of_bare rfl bare) (not_mem_of_bare rfl bare)
    have whole := ((Balanced.of_not_mem (a := ['#']) (by simp) (by simp)).append
      (inside.enclose (by decide))).append ih
    simpa using whole

/-- A closing brace of such a text stands behind a name. -/
theorem Inline.closes (h : Bare text) {front back : List Char}
    (split : text = front ++ '\x7d' :: back) : ClosesName front := by
  induction h generalizing front with
  | nil => simp at split
  | @char c rest bare _ ih =>
    cases front with
    | nil =>
      cases split
      cases bare
    | cons d front =>
      cases split
      obtain ⟨above, name, rfl, hn⟩ := ih rfl
      exact ⟨c :: above, name, rfl, hn⟩
  | @interpolation name rest bare _ ih =>
    -- the brace cannot stand in the name: it is the one that closes it, or one further on
    rw [← List.cons_append, ← List.cons_append] at split
    rcases brace_of_append split with ⟨within, same⟩ | ⟨w, rfl, same⟩
    · have mem : '\x7d' ∈ '#' :: '\x7b' :: name := by
        rw [same]
        simp
      exact absurd (by simpa using mem) (not_mem_of_bare rfl bare)
    · cases w with
      | nil => exact ⟨[], name, by simp, bare⟩
      | cons c w =>
        cases same
        obtain ⟨above, name', rfl, hn⟩ := ih rfl
        exact ⟨'#' :: '\x7b' :: name ++ '\x7d' :: above, name', by simp, hn⟩

/-! ## Texts with open blocks -/

/-- Behind the text this number of braces is open, nothing is closed that is not open, and each
closing brace stands behind a name, or is indented as what stays open behind it. -/
structure Braced (blocks : Nat) (text : List Char) : Prop where
  front : ∀ front, front <+: text → front.count '\x7d' ≤ front.count '\x7b'
  whole : text.count '\x7b' = text.count '\x7d' + blocks
  closes : ∀ front back, text = front ++ '\x7d' :: back →
    ClosesName front ∨ Indented (openBraces (front ++ ['\x7d'])) front

namespace Braced

theorem nil : Braced 0 [] where
  front := by
    intro front h
    rw [List.prefix_nil.1 h]
    exact Nat.le_refl _
  whole := rfl
  closes := by simp

theorem openBraces_eq (h : Braced blocks text) : openBraces text = blocks := by
  rw [openBraces, h.whole, Nat.add_sub_cancel_left]

/-- What is known of a text goes on with what is known of the text behind it. -/
theorem append {behind : Nat} (h : Braced blocks text)
    (front : ∀ w, w <+: more → w.count '\x7d' ≤ w.count '\x7b' + blocks)
    (whole : more.count '\x7b' + blocks = more.count '\x7d' + behind)
    (closes : ∀ w back, more = w ++ '\x7d' :: back →
      ClosesName (text ++ w) ∨ Indented (openBraces (text ++ w ++ ['\x7d'])) (text ++ w)) :
    Braced behind (text ++ more) where
  front := by
    intro part hp
    rcases prefix_of_prefix_append hp with within | ⟨w, hw, rfl⟩
    · exact h.front part within
    · have here := front w hw
      rw [List.count_append, List.count_append, h.whole]
      omega
  whole := by
    rw [List.count_append, List.count_append, h.whole]
    omega
  closes := by
    intro part back split
    rcases brace_of_append split with ⟨rest, same⟩ | ⟨w, rfl, same⟩
    · exact h.closes part rest same
    · exact closes w back same

theorem bare (h : Braced blocks text) (hm : Bare more) : Braced blocks (text ++ more) := by
  refine h.append (fun w hw => ?_) ?_ fun w back split => .inl ?_
  · exact Nat.le_add_right_of_le (hm.balanced.front w hw)
  · rw [hm.balanced.whole]
  · obtain ⟨above, name, rfl, hn⟩ := hm.closes split
    exact ⟨text ++ above, name, by simp, hn⟩

theorem opening (h : Braced blocks text) : Braced (blocks + 1) (text ++ [' ', '\x7b']) := by
  refine h.append (fun w hw => ?_) ?_ fun w back split => ?_
  · have none := (hw.sublist.count_le '\x7d').trans (Nat.le_of_eq (rfl : _ = 0))
    omega
  · rw [show List.count '\x7b' [' ', '\x7b'] = 1 from rfl,
      show List.count '\x7d' [' ', '\x7b'] = 0 from rfl]
    omega
  · have mem : '\x7d' ∈ [' ', '\x7b'] := by
      rw [split]
      simp
    simp at mem

/-- A closing brace on a line of its own, indented as the blocks around its own. -/
theorem closing (h : Braced (blocks + 1) text) :
    Braced blocks (text ++ ('\n' :: List.replicate (2 * blocks) ' ' ++ ['\x7d'])) := by
  have blank : ∀ c ∈ '\n' :: List.replicate (2 * blocks) ' ', isBrace c = false := by
    simp [isBrace]
  have opens := List.count_eq_zero_of_not_mem (not_mem_of_bare (c := '\x7b') rfl blank)
  have closes := List.count_eq_zero_of_not_mem (not_mem_of_bare (c := '\x7d') rfl blank)
  refine h.append (fun w hw => ?_) ?_ fun w back split => .inr ?_
  · have one := hw.sublist.count_le '\x7d'
    rw [List.count_append, closes, List.count_singleton_self] at one
    omega
  · rw [List.count_append, List.count_append, opens, closes, List.count_singleton_self,
      show List.count '\x7b' ['\x7d'] = 0 from rfl]
    omega
  · obtain ⟨rest, within⟩ | ⟨u, rfl, same⟩ := brace_of_append split
    · refine absurd ?_ (not_mem_of_bare (c := '\x7d') rfl blank)
      rw [within]
      simp
    · cases u with
      | cons c u => simp at same
      | nil =>
        rw [List.append_nil]
        have depth : openBraces (text ++ ('\n' :: List.replicate (2 * blocks) ' ') ++ ['\x7d']) =
            blocks := by
          simp only [openBraces, List.count_append, h.whole, opens, closes,
            List.count_singleton_self]
          rw [show List.count '\x7b' ['\x7d'] = 0 from rfl]
          omega
        rw [depth]
        exact ⟨text ++ ['\n'], by simp, by simp⟩

theorem balanced (h : Braced 0 text) : Balanced '\x7b' '\x7d' text := ⟨h.front, h.whole.symm⟩

end Braced

/-! ## Marks along an outline -/

/-- White space and commas hold no brace, so neither does what is written where no block opens or
closes. -/
theorem Mark.bare_written {mark : Mark} (layout : Layout) (place : mark.isText = false)
    (opens : mark ≠ .opening) (closes : mark ≠ .closing) : Bare (mark.written layout).toList := by
  have feeds (n : Nat) : Bare (Layout.lineFeeds n).toList := by
    refine .of_forall fun c hc => ?_
    rw [Layout.lineFeeds, String.toList_ofList] at hc
    rw [List.eq_of_mem_replicate hc]
    rfl
  have blanks (n : Nat) : Bare (Layout.indentation n).toList := by
    refine .of_forall fun c hc => ?_
    rw [Layout.indentation, String.toList_ofList] at hc
    rw [List.eq_of_mem_replicate hc]
    rfl
  have comma : Bare ",".toList := .char rfl .nil
  cases mark with
  | text s => cases place
  | opening => exact absurd rfl opens
  | closing => exact absurd rfl closes
  | clause line => exact .nil
  | statement line => exact inline_append (feeds _) (blanks _)
  | sameStatement => exact inline_append (.char rfl .nil) (blanks _)
  | selector line =>
    rw [Mark.written]
    split
    · exact .char rfl (.char rfl .nil)
    · exact inline_append (inline_append comma (feeds _)) (blanks _)

/-- What a place of an outline writes is braced if what stands before it is. -/
theorem Braced.place {place : Mark} (h : Braced (openBlocks outline) text)
    (fit : Fits (outline ++ [place])) (bare : place.isText = false) :
    Braced (openBlocks (outline ++ [place]))
      (text ++ (place.written (layoutBehind outline)).toList) := by
  cases place with
  | text s => cases bare
  | opening =>
    rw [openBlocks_opening fit.of_append.count_le, Mark.written]
    exact h.opening
  | closing =>
    obtain ⟨n, inside⟩ : ∃ n, openBlocks outline = n + 1 := by
      have closes := fit.count_le
      have none : List.count .opening [Mark.closing] = 0 := rfl
      rw [List.count_append, List.count_append, List.count_singleton_self, none] at closes
      exact ⟨openBlocks outline - 1, by rw [openBlocks]; omega⟩
    rw [openBlocks_closing, inside, Nat.add_sub_cancel]
    rw [inside] at h
    have text := h.closing
    simp only [Mark.written, layoutBehind, inside, Layout.indentation, String.toList_append,
      String.toList_ofList, Nat.add_sub_cancel]
    exact text
  | statement line | selector line | clause line | sameStatement =>
    rw [openBlocks_concat (by simp) (by simp)]
    exact h.bare (Mark.bare_written _ rfl (by simp) (by simp))

theorem Lays.braced (h : Lays (fun c => isBrace c = false) outline marks) (fit : Fits outline) :
    Braced (openBlocks outline) (layOut marks).toList := by
  -- from the right: what a closing brace stands behind is all of the text before it
  induction outline using List.reverseRecOn generalizing marks with
  | nil =>
    cases h
    exact .nil
  | append_singleton outline place ih =>
    obtain ⟨before, _, rfl, first, last⟩ := h.of_append
    have braced := ih first fit.of_append
    cases last with
    | cons fills more =>
      cases more
      rw [layOut_concat, String.toList_append, first.foldl_after, foldl_after_start fit.of_append]
      cases fills with
      | text inline ends =>
        rw [openBlocks_concat (by simp) (by simp)]
        exact braced.bare inline
      | place bare => exact braced.place fit bare

/-! ## What starts a line -/

/-- Whether the mark starts a line of its own, behind the line accounted for: a statement does, the
second line of one, and a selector of a later line. -/
def Mark.startsLine (reached : Nat) : Mark → Bool
  | .statement _ | .sameStatement => true
  | .selector line => reached < line
  | _ => false

theorem indented_feeds (above : String) {n : Nat} (depth : Nat) (some : n ≠ 0) :
    Indented depth (above ++ (Layout.lineFeeds n ++ Layout.indentation depth)).toList := by
  obtain ⟨n, rfl⟩ := Nat.exists_eq_succ_of_ne_zero some
  refine ⟨above.toList ++ List.replicate (n + 1) '\n', ?_, ?_⟩
  · simp only [String.toList_append, Layout.lineFeeds, Layout.indentation, String.toList_ofList,
      List.append_assoc]
  · rw [List.replicate_succ', ← List.append_assoc, List.getLast?_concat]
    rintro c ⟨⟩
    rfl

/-- At a place of the outline the text of the marks has come to its indentation, which goes by the
blocks that are open around it, and so by the braces that are open. -/
def IndentedAt (allowed : Char → Prop) (marks earlier : List Mark) (place : Mark)
    (later : List Mark) : Prop :=
  ∃ before after, marks = before ++ place :: after ∧ Lays allowed earlier before ∧
    Lays allowed later after ∧
    layOut marks = layOut (before ++ [place]) ++
      String.join (layPieces (place.after (layoutBehind earlier)) after) ∧
    Indented (openBlocks earlier) (layOut (before ++ [place])).toList ∧
    openBraces (layOut (before ++ [place])).toList = openBlocks earlier

/-- What starts a line is indented, behind another statement or at the very start. -/
theorem Mark.indented_written {earlier : List Mark} {place : Mark} (above : String)
    (starts : place.startsLine (accounted earlier) = true)
    (first : hasStatement earlier = false → above = "" ∧ earlier = []) :
    Indented (openBlocks earlier) (above ++ place.written (layoutBehind earlier)).toList := by
  cases place with
  | statement line =>
    by_cases feeds : (layoutBehind earlier).leadFeeds line = 0
    · have none : hasStatement earlier = false := by
        cases some : hasStatement earlier with
        | false => rfl
        | true =>
          simp only [Layout.leadFeeds, layoutBehind, some, if_true] at feeds
          omega
      obtain ⟨rfl, rfl⟩ := first none
      rw [Mark.written, feeds]
      exact ⟨[], rfl, by simp⟩
    · exact indented_feeds above _ feeds
  | sameStatement => exact indented_feeds above (n := 1) _ Nat.one_ne_zero
  | selector line =>
    have later : (layoutBehind earlier).line < line := of_decide_eq_true starts
    rw [Mark.written, if_neg (Nat.not_le_of_lt later), String.append_assoc, ← String.append_assoc]
    exact indented_feeds (above ++ ",") _ (Nat.sub_ne_zero_of_lt later)
  | text s | clause line | opening | closing => cases starts

theorem Lays.indentedAt {nodes : List Node} {earlier later : List Mark} {place : Mark}
    (h : Lays (fun c => isBrace c = false) (membersOutline nodes) marks)
    (split : membersOutline nodes = earlier ++ place :: later)
    (starts : place.startsLine (accounted earlier) = true) :
    IndentedAt (fun c => isBrace c = false) marks earlier place later := by
  have closed := (rounded_membersOutline nodes).balanced
  have outside : place ≠ .opening ∧ place ≠ .closing ∧ place.isText = false := by
    cases place with
    | statement line | sameStatement | selector line => exact ⟨by simp, by simp, rfl⟩
    | text s | clause line | opening | closing => cases starts
  obtain ⟨before, after, same, first, second, text⟩ := h.layOut_at closed split outside.2.2
  have fit : Fits (earlier ++ [place]) := by
    have whole : Fits (earlier ++ place :: later) := split ▸ closed.front
    rw [List.append_cons] at whole
    exact whole.of_append
  have up : layOut (before ++ [place]) = layOut before ++ place.written (layoutBehind earlier) := by
    rw [layOut_concat, first.foldl_after, foldl_after_start fit.of_append]
  refine ⟨before, after, same, first, second, ?_, ?_, ?_⟩
  · rw [text, up]
  · rw [up]
    refine Mark.indented_written _ starts fun none => ?_
    obtain rfl := eq_nil_of_not_hasStatement split none
    cases first
    exact ⟨rfl, rfl⟩
  · have braced := (first.braced fit.of_append).place fit outside.2.2
    rw [openBlocks_concat outside.1 outside.2.1] at braced
    rw [up, String.toList_append]
    exact braced.openBraces_eq

/-- The text of a tree whose strings hold no braces is balanced. Each of its closing braces stands
behind an interpolated name, or is the first on its line, indented as the blocks that are still open
behind it. What starts a line is indented as the blocks that are open around it: each statement, the
second line of one, and each selector of a later line. -/
theorem Stylesheet.convert_braced {options : Options} {sheet : Stylesheet} {converted : Converted}
    (spelled : SpelledIn (fun c => isBrace c = false) sheet.strings)
    (ok : sheet.convert options = .ok converted) :
    Balanced '\x7b' '\x7d' converted.text.toList ∧
    (∀ front back, converted.text.toList = front ++ '\x7d' :: back →
      ClosesName front ∨ Indented (openBraces (front ++ ['\x7d'])) front) ∧
    ∃ marks, ((statements ⟨options.policy, none⟩ sheet.nodes).run .start).1 = .ok marks ∧
      converted.text = layOut marks ∧ Lays (fun c => isBrace c = false) sheet.outline marks ∧
      ∀ earlier place later, sheet.outline = earlier ++ place :: later →
        place.startsLine (accounted earlier) = true →
        IndentedAt (fun c => isBrace c = false) marks earlier place later := by
  have harmless (c : Char) (h : isHarmless c = true) : isBrace c = false := by
    simp only [isHarmless, Bool.and_eq_true, bne_iff_ne] at h
    simp [isBrace, h]
  obtain ⟨marks, walk, text, laid⟩ := sheet.lays_convert harmless spelled ok
  have closed : Balanced .opening .closing sheet.outline :=
    (rounded_membersOutline sheet.nodes).balanced
  have braced := laid.braced closed.front
  have none : openBlocks sheet.outline = 0 := by rw [openBlocks, closed.whole, Nat.sub_self]
  rw [none, ← text] at braced
  refine ⟨braced.balanced, braced.closes, marks, walk, text, laid, ?_⟩
  exact fun earlier place later split starts => laid.indentedAt split starts

/-- Two selectors on lines of their own, and between their braces a conditional with an alternative,
one of whose properties binds a variable and has a name with an interpolation. -/
theorem braced_alternative : ∃ (sheet : Stylesheet) (converted : Converted),
    SpelledIn (fun c => isBrace c = false) sheet.strings ∧
    sheet.convert ⟨.scss, .strict⟩ = .ok converted ∧
    converted.text = "a,\nb \x7b\n  @if $c \x7b\n    $x: y;\n    w-#\x7b$i\x7d: $x;\n" ++
      "  \x7d @else \x7b\n    @include m();\n  \x7d\n\x7d" ∧
    Balanced '\x7b' '\x7d' converted.text.toList ∧
    ∀ front back, converted.text.toList = front ++ '\x7d' :: back →
      ClosesName front ∨ Indented (openBraces (front ++ ['\x7d'])) front := by
  obtain ⟨sheet, same⟩ : ∃ sheet : Stylesheet, sheet =
      ⟨[.group [⟨[.plain "a" 1], 1⟩, ⟨[.plain "b" 2], 2⟩]
        ⟨[.conditional (.name "$c" 3)
          ⟨[.property [.plain "w-" 4, .ident "i" true false 4]
            (.sequence [.binding "x" (.expression (.sequence [.name "y" 4] 4)) false false 4] 4)
            4], 3⟩
          [.block ⟨[.call "m" ⟨[], 6⟩ 6], 5⟩] 3], 1⟩]⟩ := ⟨_, rfl⟩
  have spelled : SpelledIn (fun c => isBrace c = false) sheet.strings := by
    refine spelledIn_of_all (fun c => !isBrace c) (by simp) ?_
    rw [same]
    decide +kernel
  cases outcome : sheet.convert ⟨.scss, .strict⟩ with
  | error e =>
    have some : (sheet.convert ⟨.scss, .strict⟩).toOption.isSome = true := by
      rw [same]
      decide +kernel
    rw [outcome] at some
    cases some
  | ok converted =>
    obtain ⟨balanced, closes, -⟩ := Stylesheet.convert_braced spelled outcome
    refine ⟨sheet, converted, spelled, outcome, ?_, balanced, closes⟩
    have text : (sheet.convert ⟨.scss, .strict⟩).toOption.map (·.text) = some converted.text := by
      rw [outcome]
      rfl
    refine Option.some.inj (text.symm.trans ?_)
    rw [same]
    decide +kernel

end StylusToScss
