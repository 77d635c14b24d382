import Mathlib.Data.List.Chain
import StylusToScss.Proofs.Balanced
import StylusToScss.Scss.Statement

/-!
# The outline of a stylesheet

Where statements, selectors, clauses and blocks stand in the text of a stylesheet is known from the
tree alone. `Stylesheet.outline` is the list of marks that the tree calls for, in the order of the
walk; of each text it holds only the end that is always the same. What the layout of a text depends
on is read off the marks before it: the lines accounted for (`accounted`), the blocks that are open
(`openBlocks`), and whether there is a statement among them (`hasStatement`).

* `rounded_outline`: in an outline blocks are closed, and a statement starts only at the front, at
  the start of a block, or where another statement has ended.
-/

namespace StylusToScss

/-! ## Reading marks -/

namespace Mark

/-- The line that a mark accounts for. -/
def line? : Mark → Option Nat
  | .statement line | .selector line | .clause line => some line
  | .text _ | .sameStatement | .opening | .closing => none

/-- Whether a statement starts at the mark. -/
def isStatement : Mark → Bool
  | .statement _ => true
  | _ => false

/-- Whether a statement may start behind the mark: a text that ends a statement, or a brace. -/
def completes : Mark → Bool
  | .text ending => ending = ";"
  | .opening | .closing => true
  | _ => false

/-- Whether the mark belongs to the line above a block. -/
def isHead : Mark → Bool
  | .text _ | .selector _ => true
  | _ => false

end Mark

/-- The last line accounted for by the marks, which is the first line or one behind it. -/
def accounted (marks : List Mark) : Nat := (marks.filterMap Mark.line?).foldl max 1

/-- The number of blocks that are open behind the marks. -/
def openBlocks (marks : List Mark) : Nat := marks.count .opening - marks.count .closing

/-- Whether a statement starts at one of the marks. -/
def hasStatement (marks : List Mark) : Bool := marks.any Mark.isStatement

/-! ## Outlines -/

/-- Marks between the braces of a block. -/
def enclosed (body : List Mark) : List Mark := .opening :: (body ++ [.closing])

/-- The outline of the further selectors of a group. -/
def selectorsOutline (selectors : List Selector) : List Mark :=
  selectors.flatMap fun selector => [.selector selector.line, .text ""]

mutual

/-- The outline of a node as a statement. -/
def Node.outline : Node → List Mark
  | .group (first :: rest) ⟨members, _⟩ =>
    .statement first.line :: .text "" ::
      (selectorsOutline rest ++ enclosed (membersOutline members))
  | .property _ value line =>
    .statement line :: .text ";" ::
      if (shorthand? value).isSome then [.sameStatement, .text ";"] else []
  | .binding _ (.definition _ _ ⟨members, _⟩ line) _ _ _ =>
    .statement line :: .text "" :: enclosed (membersOutline members)
  | .definition _ _ ⟨members, _⟩ line =>
    .statement line :: .text "" :: enclosed (membersOutline members)
  | .loop _ _ _ ⟨members, _⟩ line =>
    .statement line :: .text "" :: enclosed (membersOutline members)
  | .conditional _ ⟨members, _⟩ alternatives line =>
    .statement line :: .text "" ::
      (enclosed (membersOutline members) ++ clausesOutline alternatives)
  | .group [] _ | .unsupported _ _ | .selector _ | .block _ | .arguments _ | .params _ => []
  | node => [.statement node.line, .text ";"]

/-- The outline of the alternatives of a conditional. -/
def clausesOutline : List Node → List Mark
  | [] => []
  | .conditional _ ⟨members, _⟩ alternatives line :: rest =>
    .clause line :: .text "" ::
      (enclosed (membersOutline members) ++ clausesOutline alternatives ++ clausesOutline rest)
  | .block ⟨members, line⟩ :: rest =>
    .clause line :: .text "" :: (enclosed (membersOutline members) ++ clausesOutline rest)
  | _ :: rest => clausesOutline rest

/-- The outline of the members of a statement list. -/
def membersOutline : List Node → List Mark
  | [] => []
  | node :: rest => node.outline ++ membersOutline rest

end

/-- The outline of a stylesheet. -/
def Stylesheet.outline (sheet : Stylesheet) : List Mark := membersOutline sheet.nodes

theorem membersOutline_append (a b : List Node) :
    membersOutline (a ++ b) = membersOutline a ++ membersOutline b := by
  induction a with
  | nil => rfl
  | cons node rest ih => simp only [List.cons_append, membersOutline, ih, List.append_assoc]

theorem Node.outline_front : ∀ node : Node,
    node.outline = [] ∨ ∃ line rest, node.outline = .statement line :: rest
  | .group (_ :: _) ⟨_, _⟩ | .property _ _ _ | .definition _ _ ⟨_, _⟩ _ | .loop _ _ _ ⟨_, _⟩ _
  | .conditional _ ⟨_, _⟩ _ _ => .inr ⟨_, _, rfl⟩
  | .binding _ value _ _ _ => by
    cases value with
    | definition name params block line =>
      cases block
      exact .inr ⟨_, _, rfl⟩
    | _ => exact .inr ⟨_, _, rfl⟩
  | .group [] _ | .unsupported _ _ | .selector _ | .block _ | .arguments _ | .params _ => .inl rfl
  | .importRule _ _ | .ident _ _ _ _ | .expression _ | .call _ _ _ | .binary _ _ _ _
  | .unary _ _ _ | .literal _ | .measure _ _ _ | .boolean _ _ | .color _ _ => .inr ⟨_, _, rfl⟩

/-- An outline starts with a statement, unless there is none. -/
theorem membersOutline_front (nodes : List Node) :
    membersOutline nodes = [] ∨ ∃ line rest, membersOutline nodes = .statement line :: rest := by
  induction nodes with
  | nil => exact .inl rfl
  | cons node rest ih =>
    rw [membersOutline]
    rcases node.outline_front with none | ⟨line, more, same⟩
    · rw [none]
      exact ih
    · rw [same]
      exact .inr ⟨line, _, rfl⟩

/-- Only at its start is there no statement before a place of an outline. -/
theorem eq_nil_of_not_hasStatement {nodes : List Node} {earlier later : List Mark} {mark : Mark}
    (split : membersOutline nodes = earlier ++ mark :: later)
    (none : hasStatement earlier = false) : earlier = [] := by
  cases earlier with
  | nil => rfl
  | cons first rest =>
    rcases membersOutline_front nodes with empty | ⟨line, more, same⟩
    · rw [empty] at split
      cases split
    · rw [same] at split
      cases split
      cases none

/-! ## Their shape -/

/-- Blocks are closed, statements start only where they may, and another one may follow. -/
structure Rounded (marks : List Mark) : Prop where
  balanced : Balanced .opening .closing marks
  apart : marks.IsChain fun a b => b.isStatement = true → a.completes = true
  complete : ∀ mark ∈ marks.getLast?, mark.completes = true

namespace Rounded

variable {a b body head : List Mark} {mark : Mark}

theorem nil : Rounded [] := ⟨.nil, .nil, nofun⟩

theorem append (ha : Rounded a) (hb : Rounded b) : Rounded (a ++ b) where
  balanced := ha.balanced.append hb.balanced
  apart := ha.apart.append hb.apart fun mark hm _ _ _ => ha.complete mark hm
  complete := by
    intro mark hm
    rw [List.getLast?_append, Option.mem_def, Option.or_eq_some_iff] at hm
    rcases hm with hm | ⟨-, hm⟩
    · exact hb.complete mark hm
    · exact ha.complete mark hm

/-- A statement on a line of its own. -/
theorem line (line : Nat) : Rounded [.statement line, .text ";"] where
  balanced := .of_not_mem (by simp) (by simp)
  apart := by simp [Mark.isStatement]
  complete := by simp [Mark.completes]

/-- The second line of a statement. -/
theorem secondLine : Rounded [.sameStatement, .text ";"] where
  balanced := .of_not_mem (by simp) (by simp)
  apart := by simp [Mark.isStatement]
  complete := by simp [Mark.completes]

theorem enclosed (h : Rounded body) : Rounded (enclosed body) where
  balanced := h.balanced.enclose (by simp)
  apart := by
    have closed := h.apart.append (.singleton .closing) fun _ _ mark hm starts => by
      cases hm
      cases starts
    exact closed.cons fun _ _ _ => rfl
  complete := by
    intro mark hm
    rw [StylusToScss.enclosed, ← List.cons_append, List.getLast?_concat] at hm
    cases hm
    rfl

/-- A block behind the line above it. -/
theorem block (outside : mark ≠ .opening ∧ mark ≠ .closing)
    (hh : ∀ part ∈ head, part.isHead = true) (h : Rounded body) :
    Rounded (mark :: head ++ StylusToScss.enclosed body) := by
  have bare {part : Mark} (hp : part.isHead = true) :
      part ≠ .opening ∧ part ≠ .closing ∧ part.isStatement = false := by
    cases part <;> cases hp
    all_goals exact ⟨by simp, by simp, rfl⟩
  have open_ := h.enclosed
  refine ⟨.append (.of_not_mem ?_ ?_) open_.balanced, ?_, ?_⟩
  · rintro (_ | ⟨_, mem⟩)
    · exact outside.1 rfl
    · exact (bare (hh _ mem)).1 rfl
  · rintro (_ | ⟨_, mem⟩)
    · exact outside.2 rfl
    · exact (bare (hh _ mem)).2.1 rfl
  · refine List.IsChain.append ?_ open_.apart ?_
    · clear outside open_
      induction head generalizing mark with
      | nil => exact .singleton mark
      | cons part rest ih =>
        obtain ⟨here, more⟩ := List.forall_mem_cons.1 hh
        refine (ih more).cons fun next hn starts => ?_
        cases hn
        rw [(bare here).2.2] at starts
        cases starts
    · intro _ _ next hn starts
      cases hn
      cases starts
  · intro last hl
    rw [List.getLast?_append, Option.mem_def, Option.or_eq_some_iff] at hl
    rcases hl with hl | ⟨none, -⟩
    · exact open_.complete last hl
    · simp [StylusToScss.enclosed] at none

/-- A block behind a single line. -/
theorem plainBlock (outside : mark ≠ .opening ∧ mark ≠ .closing) (h : Rounded body) :
    Rounded (mark :: .text "" :: StylusToScss.enclosed body) := by
  have head : ∀ part ∈ [Mark.text ""], part.isHead = true := by simp [Mark.isHead]
  exact block outside head h

end Rounded

theorem isHead_selectorsOutline (selectors : List Selector) :
    ∀ part ∈ selectorsOutline selectors, part.isHead = true := by
  intro part hp
  obtain ⟨selector, -, hp⟩ := List.mem_flatMap.1 hp
  simp only [List.mem_cons, List.not_mem_nil, or_false] at hp
  rcases hp with rfl | rfl
  · rfl
  · rfl

mutual

theorem Node.rounded_outline : ∀ node : Node, Rounded node.outline
  | .group (first :: rest) ⟨members, _⟩ =>
    .block ⟨by simp, by simp⟩ (List.forall_mem_cons.2 ⟨rfl, isHead_selectorsOutline rest⟩)
      (rounded_membersOutline members)
  | .property _ value line => by
    rw [Node.outline]
    split
    · exact (Rounded.line line).append .secondLine
    · exact .line line
  | .binding name value interpolated lookup line => by
    cases value with
    | definition name params block line =>
      cases block
      exact .plainBlock ⟨by simp, by simp⟩ (rounded_membersOutline _)
    | _ => exact .line line
  | .definition _ _ ⟨members, _⟩ line | .loop _ _ _ ⟨members, _⟩ line =>
    .plainBlock ⟨by simp, by simp⟩ (rounded_membersOutline members)
  | .conditional _ ⟨members, _⟩ alternatives line =>
    (Rounded.plainBlock ⟨by simp, by simp⟩ (rounded_membersOutline members)).append
      (rounded_clausesOutline alternatives)
  | .group [] _ | .unsupported _ _ | .selector _ | .block _ | .arguments _ | .params _ => .nil
  | .importRule _ _ | .ident _ _ _ _ | .expression _ | .call _ _ _ | .binary _ _ _ _
  | .unary _ _ _ | .literal _ | .measure _ _ _ | .boolean _ _ | .color _ _ => .line _

theorem rounded_clausesOutline : ∀ nodes : List Node, Rounded (clausesOutline nodes)
  | [] => .nil
  | .conditional _ ⟨members, _⟩ alternatives line :: rest => by
    rw [clausesOutline, List.append_assoc]
    exact (Rounded.plainBlock ⟨by simp, by simp⟩ (rounded_membersOutline members)).append
      ((rounded_clausesOutline alternatives).append (rounded_clausesOutline rest))
  | .block ⟨members, line⟩ :: rest =>
    (Rounded.plainBlock ⟨by simp, by simp⟩ (rounded_membersOutline members)).append
      (rounded_clausesOutline rest)
  | .importRule _ _ :: rest | .group _ _ :: rest | .selector _ :: rest | .property _ _ _ :: rest
  | .ident _ _ _ _ :: rest | .binding _ _ _ _ _ :: rest | .expression _ :: rest
  | .call _ _ _ :: rest | .arguments _ :: rest | .params _ :: rest | .binary _ _ _ _ :: rest
  | .unary _ _ _ :: rest | .loop _ _ _ _ _ :: rest | .literal _ :: rest | .measure _ _ _ :: rest
  | .boolean _ _ :: rest | .color _ _ :: rest | .definition _ _ _ _ :: rest
  | .unsupported _ _ :: rest => rounded_clausesOutline rest

theorem rounded_membersOutline : ∀ nodes : List Node, Rounded (membersOutline nodes)
  | [] => .nil
  | node :: rest => node.rounded_outline.append (rounded_membersOutline rest)

end

end StylusToScss
