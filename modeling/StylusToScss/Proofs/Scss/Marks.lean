import StylusToScss.Proofs.Scss.Inline
import StylusToScss.Proofs.Scss.Outline

/-!
# The marks of a stylesheet lie along its outline

What the walk gives for a tree are the marks of its outline, with texts in their places
(`lays_statements`). The texts hold only characters that the strings of the tree hold, and
those that writing adds. What is known on the way is kept: the values of the properties written so
far are such texts too.
-/

namespace StylusToScss

variable {α β : Type} {allowed : Char → Prop}

/-! ## Marks along an outline -/

namespace Mark

/-- Whether the mark is a text. -/
def isText : Mark → Bool
  | .text _ => true
  | _ => false

/-- A mark in its place of an outline: the same mark, or an inline text that ends as the outline
says. -/
inductive Fills (allowed : Char → Prop) : Mark → Mark → Prop
  | text {ending s : String} (inline : Inline allowed s.toList)
      (ends : ending.toList <:+ s.toList) : Fills allowed (.text ending) (.text s)
  | place {mark : Mark} (h : mark.isText = false) : Fills allowed mark mark

end Mark

/-- The marks lie along the outline. -/
def Lays (allowed : Char → Prop) (outline marks : List Mark) : Prop :=
  List.Forall₂ (Mark.Fills allowed) outline marks

namespace Lays

variable {a b marks more body : List Mark} {mark : Mark} {s : String}

theorem nil : Lays allowed [] [] := List.Forall₂.nil

theorem place (h : mark.isText = false) (hm : Lays allowed a marks) :
    Lays allowed (mark :: a) (mark :: marks) :=
  .cons (.place h) hm

theorem text (hs : Inline allowed s.toList) (hm : Lays allowed a marks) :
    Lays allowed (.text "" :: a) (.text s :: marks) :=
  .cons (.text hs List.nil_suffix) hm

/-- A text that ends a statement. -/
theorem ended (hs : Inline allowed (s ++ ";").toList) (hm : Lays allowed a marks) :
    Lays allowed (.text ";" :: a) (.text (s ++ ";") :: marks) := by
  refine .cons (.text hs ?_) hm
  rw [String.toList_append]
  exact List.suffix_append _ _

theorem append (ha : Lays allowed a marks) (hb : Lays allowed b more) :
    Lays allowed (a ++ b) (marks ++ more) :=
  List.rel_append ha hb

theorem enclosed (h : Lays allowed a body) :
    Lays allowed (enclosed a) (.opening :: body ++ [.closing]) :=
  .place rfl (h.append (.place rfl .nil))

end Lays

/-! ## Steps of the walk -/

namespace Walk

variable {inv : Names → Prop} {good : α → Prop} {good' : β → Prop} {walk : Walk α}
  {next : α → Walk β}

/-- Where the names known are as they should be, what the walk gives is good, and the names are so
again. -/
def Keeps (inv : Names → Prop) (good : α → Prop) (walk : Walk α) : Prop :=
  ∀ progress, inv progress.names →
    Yields (fun a => good a ∧ inv (walk.run progress).2.names) (fun _ => True)
      (walk.run progress).1

theorem keeps_pure {a : α} (h : good a) : Keeps inv good (pure a : Walk α) :=
  fun _ known => ⟨h, known⟩

theorem keeps_malformed (shape : ShapeFault) (line : Nat) :
    Keeps inv good (malformed shape line : Walk α) :=
  fun _ _ => trivial

theorem keeps_rename {f : Names → Names} (h : ∀ names, inv names → inv (f names)) :
    Keeps inv (fun _ => True) (rename f) :=
  fun progress known => ⟨trivial, h progress.names known⟩

theorem Keeps.bind (h : Keeps inv good walk) (hn : ∀ a, good a → Keeps inv good' (next a)) :
    Keeps inv good' (walk >>= next) := by
  intro progress known
  have here := h progress known
  rw [run_bind]
  generalize walk.run progress = result at here ⊢
  obtain ⟨e | a, after⟩ := result
  · trivial
  · exact hn a here.1 after here.2

theorem keeps_value {around : Surrounding} {good : String → Prop} {write : View → Written Fragment}
    (h : ∀ view, inv view.names →
      Yields (fun fragment => good fragment.text) (fun _ => True) (write view)) :
    Keeps inv good (value around write) := by
  intro progress known
  have here := h ⟨progress.names, around.within.isSome, around.policy⟩ known
  rw [run_value]
  generalize write _ = outcome at here ⊢
  cases outcome with
  | error e => trivial
  | ok fragment => exact ⟨here, known⟩

/-- Binding a variable leaves the values of the properties as they are. -/
theorem keeps_bind (name : String) :
    Keeps (Names.HoldInline allowed) (fun _ => True) (Walk.bind name) :=
  keeps_rename fun _ known => known

theorem keeps_record {property text : String} (h : Inline allowed text.toList) :
    Keeps (Names.HoldInline allowed) (fun _ => True) (rename (·.record property text)) :=
  keeps_rename fun _ known => List.forall_mem_cons.2 ⟨h, known⟩

end Walk

/-- What the walk gives is good, and the values known stay inline. -/
abbrev Walk.Writes (allowed : Char → Prop) (good : α → Prop) (walk : Walk α) : Prop :=
  walk.Keeps (Names.HoldInline allowed) good

open Walk

/-! ## Statements -/

section
variable (harmless : ∀ c, isHarmless c = true → allowed c) (around : Surrounding)
include harmless

theorem writes_nodeValue {node : Node} (h : SpelledIn allowed node.strings) :
    Writes allowed (fun text => Inline allowed text.toList)
      (Walk.value around fun view => node.value view) :=
  keeps_value fun _ known => node.inline_value harmless known h

theorem writes_expressionValue {expression : Expression}
    (h : SpelledIn allowed (nodeStrings expression.nodes)) :
    Writes allowed (fun text => Inline allowed text.toList)
      (Walk.value around fun view => expression.value view) :=
  keeps_value fun _ known => Expression.inline_value harmless known h

theorem writes_segments {segments : List Node} (h : SpelledIn allowed (nodeStrings segments)) :
    Writes allowed (fun text => Inline allowed text.toList)
      (Walk.value around fun view => segmentsValue view segments) :=
  keeps_value fun _ known => inline_segmentsValue harmless known h

omit harmless in
theorem writes_policy (kind : String) (line : Nat) :
    Writes allowed (fun text => Inline allowed text.toList)
      (Walk.value around fun view => view.policy.unsupported kind line) := by
  refine keeps_value fun view _ => ?_
  cases view.policy with
  | strict => trivial
  | lenient => exact Inline.nil

theorem inline_import {path : List Literal}
    (h : SpelledIn allowed (path.flatMap Literal.strings)) :
    Inline allowed ("@import " ++ (pathQuote path ++ String.join (path.map (·.value)) ++
      pathQuote path) ++ ";").toList := by
  have piece {l : Literal} (hl : l ∈ path) : SpelledIn allowed l.strings :=
    fun s hs => h s (List.mem_flatMap.2 ⟨l, hl, hs⟩)
  have quote : Inline allowed (pathQuote path).toList := by
    unfold pathQuote
    cases found : path.findSome? (·.quote) with
    | none => exact .nil
    | some quote =>
      obtain ⟨l, hl, same⟩ := List.exists_of_findSome?_eq_some found
      refine .of_forall (piece hl (String.singleton quote) ?_)
      rw [Literal.strings, same]
      exact .tail _ (.head _)
  have values : Inline allowed (String.join (path.map (·.value))).toList := by
    refine inline_join fun text ht => ?_
    obtain ⟨l, hl, rfl⟩ := List.mem_map.1 ht
    exact .of_forall (piece hl l.value (.head _))
  have word := inline_fixed harmless (s := "@import ") rfl
  have semicolon := inline_fixed harmless (s := ";") rfl
  exact inline_append (inline_append word (inline_append (inline_append quote values) quote))
    semicolon

theorem lays_importMarks {path : List Literal} (line : Nat)
    (h : SpelledIn allowed (path.flatMap Literal.strings)) :
    Writes allowed (Lays allowed [.statement line, .text ";"]) (importMarks path line) := by
  unfold importMarks
  split
  · exact keeps_malformed _ _
  · exact keeps_pure (.place rfl (.ended (inline_import harmless h) .nil))

/-- A text, a colon and another text make up a line that ends a statement. -/
theorem inline_declaration {name text : String} (hn : Inline allowed name.toList)
    (ht : Inline allowed text.toList) : Inline allowed (name ++ ": " ++ text ++ ";").toList :=
  inline_append (inline_append (inline_append hn (inline_fixed harmless rfl)) ht)
    (inline_fixed harmless rfl)

theorem lays_propertyMarks {segments : List Node} {value : Expression} (line : Nat)
    (hs : SpelledIn allowed (nodeStrings segments))
    (hv : SpelledIn allowed (nodeStrings value.nodes)) :
    Writes allowed (Lays allowed (Node.property segments value line).outline)
      (propertyMarks around segments value line) := by
  unfold propertyMarks
  refine (writes_segments harmless around hs).bind fun property inline => ?_
  rw [Node.outline]
  cases short : shorthand? value with
  | none =>
    refine (writes_expressionValue harmless around hv).bind fun text inline' => ?_
    refine (keeps_record inline').bind fun _ _ => keeps_pure ?_
    exact .place rfl (.ended (inline_declaration harmless inline inline') .nil)
  | some bound =>
    obtain ⟨name, e⟩ := bound
    obtain ⟨_, _, _, only⟩ := nodes_of_shorthand? short
    rw [only] at hv
    obtain ⟨hname, he⟩ := spelledIn_cons.1 (spelledIn_append.1 hv).1
    have he : SpelledIn allowed (nodeStrings e.nodes) := by
      cases e
      exact he
    have referenced := inline_reference harmless hname
    refine (writes_expressionValue harmless around he).bind fun text inline' => ?_
    refine (keeps_bind name).bind fun _ _ => ?_
    refine (keeps_record referenced).bind fun _ _ => keeps_pure ?_
    have first := inline_declaration harmless referenced inline'
    have second := inline_declaration harmless inline referenced
    exact .place rfl (.ended first (.place rfl (.ended second .nil)))

theorem lays_assignmentMarks {name : String} {value : Node} (line : Nat)
    (hn : ∀ c ∈ name.toList, allowed c) (hv : SpelledIn allowed value.strings) :
    Writes allowed (Lays allowed [.statement line, .text ";"])
      (assignmentMarks around name value line) := by
  unfold assignmentMarks
  refine (writes_nodeValue harmless around hv).bind fun text inline => ?_
  refine (keeps_bind name).bind fun _ _ => keeps_pure ?_
  have referenced := inline_reference harmless hn
  exact .place rfl (.ended (inline_declaration harmless referenced inline) .nil)

theorem inline_expressionWord (node : Node) :
    Inline allowed (expressionWord around node).toList := by
  unfold expressionWord
  split
  · exact inline_fixed harmless rfl
  · split
    · exact inline_fixed harmless rfl
    · exact .nil

theorem lays_expressionMarks (node : Node) (h : SpelledIn allowed node.strings) :
    Writes allowed (Lays allowed [.statement node.line, .text ";"])
      (expressionMarks around node) := by
  unfold expressionMarks
  refine (writes_nodeValue harmless around h).bind fun text inline => keeps_pure ?_
  have words := inline_append (inline_expressionWord harmless around node) inline
  exact .place rfl (.ended (inline_append words (inline_fixed harmless rfl)) .nil)

omit harmless in
theorem lays_unsupportedMarks (kind : String) (line : Nat) :
    Writes allowed (Lays allowed []) (unsupportedMarks around kind line) :=
  (writes_policy around kind line).bind fun _ _ => keeps_pure .nil

theorem lays_selectorMarks : ∀ {selectors : List Selector},
    SpelledIn allowed (selectorStrings selectors) →
    Writes allowed (Lays allowed (selectorsOutline selectors)) (selectorMarks around selectors)
  | [], _ => keeps_pure .nil
  | ⟨segments, line⟩ :: rest, h => by
    obtain ⟨hs, hr⟩ := spelledIn_append.1 h
    refine (writes_segments harmless around hs).bind fun text inline => ?_
    refine (lays_selectorMarks hr).bind fun more laid => keeps_pure ?_
    exact .place rfl (.text inline laid)

/-- The bounds of a range, with the words around them. -/
theorem writes_bounds {left right : Node} {front between : String}
    (hf : Inline allowed front.toList) (hb : Inline allowed between.toList)
    (hl : SpelledIn allowed left.strings) (hr : SpelledIn allowed right.strings) :
    Writes allowed (fun text => Inline allowed text.toList) (do
      let first ← Walk.value around fun view => left.value view
      let last ← Walk.value around fun view => right.value view
      return front ++ first ++ " " ++ between ++ " " ++ last) := by
  refine (writes_nodeValue harmless around hl).bind fun first inline => ?_
  refine (writes_nodeValue harmless around hr).bind fun last inline' => keeps_pure ?_
  have blank := inline_fixed harmless (s := " ") rfl
  have middle := inline_append (inline_append (inline_append hf inline) blank) hb
  exact inline_append (inline_append middle blank) inline'

/-- The items of a loop's source behind the names that they are bound to. -/
theorem writes_items {nodes : List Node} {names : String} (hn : Inline allowed names.toList)
    (h : SpelledIn allowed (nodeStrings nodes)) :
    Writes allowed (fun text => Inline allowed text.toList) (do
      let items ← Walk.value around fun view => do
        return .join ", " (← nodes.mapM (loopItem view))
      return "@each " ++ names ++ " in " ++ items) := by
  have items : Writes allowed (fun text => Inline allowed text.toList)
      (Walk.value around fun view => do return .join ", " (← nodes.mapM (loopItem view))) :=
    keeps_value fun view known => (inline_loopItems harmless known h).bind fun fragments inline =>
      inline_joined harmless rfl inline
  refine items.bind fun text inline => keeps_pure ?_
  have front := inline_append (inline_fixed harmless (s := "@each ") rfl) hn
  exact inline_append (inline_append front (inline_fixed harmless (s := " in ") rfl)) inline

theorem writes_loopHead {item : String} {key : Option String} {source : Expression} (line : Nat)
    (hi : ∀ c ∈ item.toList, allowed c) (hk : SpelledIn allowed key.toList)
    (hs : SpelledIn allowed (nodeStrings source.nodes)) :
    Writes allowed (fun text => Inline allowed text.toList)
      (loopHead around item key source line) := by
  have fixed {s : String} (h : s.toList.all isHarmless = true) := inline_fixed harmless h
  have bound := inline_reference harmless hi
  unfold loopHead
  refine (keeps_bind item).bind fun _ _ => ?_
  cases range : range? source with
  | some bounds =>
    obtain ⟨left, word, right⟩ := bounds
    obtain ⟨op, number, nodes⟩ := nodes_of_range? range
    rw [nodes] at hs
    obtain ⟨hl, hr⟩ := spelledIn_append.1 (spelledIn_cons.1 (spelledIn_append.1 hs).1).2
    have between : Inline allowed word.toList := by
      unfold range? at range
      split at range <;> cases range
      · exact fixed (s := "through") rfl
      · exact fixed (s := "to") rfl
    have front := inline_append (inline_append (fixed (s := "@for ") rfl) bound)
      (fixed (s := " from ") rfl)
    have bounded := writes_bounds harmless around front between hl hr
    cases key with
    | none => exact bounded
    | some key => exact (writes_policy around _ line).bind fun _ _ => bounded
  | none =>
    have named {names : String} (inline : Inline allowed names.toList) :
        Writes allowed (fun text : String => Inline allowed text.toList) (pure names) :=
      keeps_pure inline
    cases key with
    | none =>
      exact (named bound).bind fun _ inline => writes_items harmless around inline hs
    | some key =>
      have both := inline_append (inline_append bound (fixed (s := ", ") rfl))
        (inline_reference harmless (spelledIn_cons.1 hk).1)
      refine (keeps_bind key).bind fun _ _ => ?_
      exact (named both).bind fun _ inline => writes_items harmless around inline hs

theorem writes_parameterTexts {params : List Node} (h : SpelledIn allowed (nodeStrings params)) :
    Writes allowed (fun texts : List String => ∀ text ∈ texts, Inline allowed text.toList)
      (parameterTexts around params) := by
  induction params with
  | nil => exact keeps_pure (List.forall_mem_nil _)
  | cons node rest ih =>
    obtain ⟨hn, hr⟩ := spelledIn_append.1 h
    have behind := ih hr
    unfold parameterTexts
    split
    · next none => cases none
    · next same =>
      cases same
      have bound := inline_reference harmless (spelledIn_cons.1 hn).1
      refine (keeps_bind _).bind fun _ _ => ?_
      exact behind.bind fun more inline => keeps_pure (List.forall_mem_cons.2 ⟨bound, inline⟩)
    · next same =>
      cases same
      obtain ⟨hname, hv⟩ := spelledIn_cons.1 hn
      refine (keeps_bind _).bind fun _ _ => ?_
      refine (writes_nodeValue harmless around hv).bind fun text inline => ?_
      have parameter := inline_append (inline_append (inline_reference harmless hname)
        (inline_fixed harmless (s := ": ") rfl)) inline
      exact behind.bind fun more inline' =>
        keeps_pure (List.forall_mem_cons.2 ⟨parameter, inline'⟩)
    · next other other' same =>
      cases same
      exact keeps_malformed _ _

theorem lays_definitionMarks {name : String} {params : Arguments} (line : Nat)
    (form : DefinitionForm) {body : Walk (List Mark)} {outline : List Mark}
    (hn : ∀ c ∈ name.toList, allowed c) (hp : SpelledIn allowed (nodeStrings params.nodes))
    (h : Writes allowed (Lays allowed outline) body) :
    Writes allowed (Lays allowed (.statement line :: .text "" :: outline))
      (definitionMarks around name params line form body) := by
  unfold definitionMarks
  refine (writes_parameterTexts harmless (around.inside form) hp).bind fun texts inline => ?_
  refine h.bind fun marks laid => keeps_pure ?_
  have word : Inline allowed form.word.toList := by
    cases form
    · exact inline_fixed harmless rfl
    · exact inline_fixed harmless rfl
  have joined := inline_intercalate (inline_fixed harmless (s := ", ") rfl) inline
  have head := inline_append (inline_append word (.of_forall hn))
    (inline_parenthesize harmless joined)
  exact .place rfl (.text head laid)

end

mutual

theorem Node.lays_statement (harmless : ∀ c, isHarmless c = true → allowed c)
    (around : Surrounding) : ∀ node : Node, SpelledIn allowed node.strings →
    Writes allowed (Lays allowed node.outline) (node.statement around)
  | .importRule path line, h => lays_importMarks harmless line h
  | .group [] _, _ => keeps_malformed _ _
  | .group (⟨segments, line⟩ :: rest) ⟨members, _⟩, h => by
    obtain ⟨hs, hm⟩ := spelledIn_append.1 h
    obtain ⟨hf, hr⟩ := spelledIn_append.1 hs
    refine (writes_segments harmless around hf).bind fun first inline => ?_
    refine (lays_selectorMarks harmless around hr).bind fun more laid => ?_
    refine (Block.lays_marks harmless around ⟨members, _⟩ hm).bind fun body laid' => keeps_pure ?_
    exact .place rfl (.text inline (laid.append laid'))
  | .property segments ⟨nodes, _, _, _⟩ line, h => by
    obtain ⟨hs, hv⟩ := spelledIn_append.1 h
    exact lays_propertyMarks harmless around line hs hv
  | .ident name interpolated lookup line, h =>
    lays_expressionMarks harmless around (.ident name interpolated lookup line) h
  | .binding name value interpolated lookup line, h => by
    obtain ⟨hn, hv⟩ := spelledIn_cons.1 h
    have assigned := lays_assignmentMarks harmless around line hn hv
    cases value with
    | definition inner params b number =>
      obtain ⟨params, _⟩ := params
      obtain ⟨members, _⟩ := b
      obtain ⟨hn, hd⟩ := spelledIn_cons.1 hv
      obtain ⟨hp, hm⟩ := spelledIn_append.1 hd
      exact lays_definitionMarks harmless around number _ hn hp
        (Block.lays_marks harmless _ ⟨members, _⟩ hm)
    | _ => exact assigned
  | .conditional condition ⟨members, _⟩ alternatives line, h => by
    obtain ⟨hc, hs⟩ := spelledIn_append.1 h
    obtain ⟨hm, ha⟩ := spelledIn_append.1 hs
    refine (writes_nodeValue harmless around hc).bind fun text inline => ?_
    refine (Block.lays_marks harmless around ⟨members, _⟩ hm).bind fun body laid => ?_
    refine (lays_alternativeMarks harmless around alternatives ha).bind fun more laid' =>
      keeps_pure ?_
    have head := inline_append (inline_fixed harmless (s := "@if ") rfl) inline
    exact .place rfl (.text head (laid.append laid'))
  | .loop item key ⟨nodes, _, _, _⟩ ⟨members, _⟩ line, h => by
    obtain ⟨hi, hl⟩ := spelledIn_cons.1 h
    obtain ⟨hk, hs⟩ := spelledIn_append.1 hl
    obtain ⟨hs, hm⟩ := spelledIn_append.1 hs
    refine (writes_loopHead harmless around line hi hk hs).bind fun head inline => ?_
    exact (Block.lays_marks harmless around ⟨members, _⟩ hm).bind fun body laid =>
      keeps_pure (.place rfl (.text inline laid))
  | .definition name ⟨params, _⟩ ⟨members, _⟩ line, h => by
    obtain ⟨hn, hd⟩ := spelledIn_cons.1 h
    obtain ⟨hp, hm⟩ := spelledIn_append.1 hd
    exact lays_definitionMarks harmless around line _ hn hp
      (Block.lays_marks harmless _ ⟨members, _⟩ hm)
  | .unsupported kind line, _ => lays_unsupportedMarks around kind line
  | .expression e, h => lays_expressionMarks harmless around (.expression e) h
  | .call name arguments line, h =>
    lays_expressionMarks harmless around (.call name arguments line) h
  | .binary op left right line, h =>
    lays_expressionMarks harmless around (.binary op left right line) h
  | .unary op operand line, h =>
    lays_expressionMarks harmless around (.unary op operand line) h
  | .literal l, h => lays_expressionMarks harmless around (.literal l) h
  | .measure value unit line, h =>
    lays_expressionMarks harmless around (.measure value unit line) h
  | .boolean value line, h =>
    lays_expressionMarks harmless around (.boolean value line) h
  | .color raw line, h => lays_expressionMarks harmless around (.color raw line) h
  | .selector _, _ | .block _, _ | .arguments _, _ | .params _, _ => keeps_malformed _ _

theorem lays_alternativeMarks (harmless : ∀ c, isHarmless c = true → allowed c)
    (around : Surrounding) : ∀ nodes : List Node, SpelledIn allowed (nodeStrings nodes) →
    Writes allowed (Lays allowed (clausesOutline nodes)) (alternativeMarks around nodes)
  | [], _ => keeps_pure .nil
  | .conditional condition ⟨members, _⟩ alternatives line :: rest, h => by
    obtain ⟨hn, hr⟩ := spelledIn_append.1 h
    obtain ⟨hc, hs⟩ := spelledIn_append.1 hn
    obtain ⟨hm, ha⟩ := spelledIn_append.1 hs
    refine (writes_nodeValue harmless around hc).bind fun text inline => ?_
    refine (Block.lays_marks harmless around ⟨members, _⟩ hm).bind fun body laid => ?_
    refine (lays_alternativeMarks harmless around alternatives ha).bind fun inner laid' => ?_
    refine (lays_alternativeMarks harmless around rest hr).bind fun more laid'' => keeps_pure ?_
    have head := inline_append (inline_fixed harmless (s := " @else if ") rfl) inline
    exact .place rfl (.text head ((laid.append laid').append laid''))
  | .block ⟨members, line⟩ :: rest, h => by
    obtain ⟨hm, hr⟩ := spelledIn_append.1 h
    refine (Block.lays_marks harmless around ⟨members, _⟩ hm).bind fun body laid => ?_
    refine (lays_alternativeMarks harmless around rest hr).bind fun more laid' => keeps_pure ?_
    exact .place rfl (.text (inline_fixed harmless rfl) (laid.append laid'))
  | .importRule _ _ :: _, _ | .group _ _ :: _, _ | .selector _ :: _, _ | .property _ _ _ :: _, _
  | .ident _ _ _ _ :: _, _ | .binding _ _ _ _ _ :: _, _ | .expression _ :: _, _
  | .call _ _ _ :: _, _ | .arguments _ :: _, _ | .params _ :: _, _ | .binary _ _ _ _ :: _, _
  | .unary _ _ _ :: _, _ | .loop _ _ _ _ _ :: _, _ | .literal _ :: _, _ | .measure _ _ _ :: _, _
  | .boolean _ _ :: _, _ | .color _ _ :: _, _ | .definition _ _ _ _ :: _, _
  | .unsupported _ _ :: _, _ => keeps_malformed _ _

theorem Block.lays_marks (harmless : ∀ c, isHarmless c = true → allowed c)
    (around : Surrounding) : ∀ block : Block, SpelledIn allowed (nodeStrings block.nodes) →
    Writes allowed (Lays allowed (enclosed (membersOutline block.nodes))) (block.marks around)
  | ⟨members, _⟩, h =>
    (lays_statements harmless around members h).bind fun _ laid => keeps_pure laid.enclosed

/-- The marks of statements lie along their outline. -/
theorem lays_statements (harmless : ∀ c, isHarmless c = true → allowed c) (around : Surrounding) :
    ∀ nodes : List Node, SpelledIn allowed (nodeStrings nodes) →
    Writes allowed (Lays allowed (membersOutline nodes)) (statements around nodes)
  | [], _ => keeps_pure .nil
  | node :: rest, h => by
    obtain ⟨hn, hr⟩ := spelledIn_append.1 h
    refine (node.lays_statement harmless around hn).bind fun first laid => ?_
    exact (lays_statements harmless around rest hr).bind fun more laid' =>
      keeps_pure (laid.append laid')

end

/-- What a tree is converted to is the text of the marks that the walk gives, and these lie along
its outline. -/
theorem Stylesheet.lays_convert {options : Options} {sheet : Stylesheet} {converted : Converted}
    (harmless : ∀ c, isHarmless c = true → allowed c) (spelled : SpelledIn allowed sheet.strings)
    (ok : sheet.convert options = .ok converted) :
    ∃ marks, ((statements ⟨options.policy, none⟩ sheet.nodes).run .start).1 = .ok marks ∧
      converted.text = layOut marks ∧ Lays allowed sheet.outline marks := by
  have laid := lays_statements harmless ⟨options.policy, none⟩ sheet.nodes spelled .start
    (List.forall_mem_nil _)
  unfold Stylesheet.convert at ok
  generalize (statements ⟨options.policy, none⟩ sheet.nodes).run .start = outcome at laid ok ⊢
  obtain ⟨e | marks, progress⟩ := outcome
  · cases ok
  · cases ok
    exact ⟨marks, rfl, rfl, laid.1⟩

end StylusToScss
