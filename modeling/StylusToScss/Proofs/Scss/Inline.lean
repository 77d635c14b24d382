import StylusToScss.Proofs.Binary64.ReadBack
import StylusToScss.Proofs.Scss.Obstacles
import StylusToScss.Proofs.Tree.Strings

/-!
# The characters of values

The text of a value is made of the strings of the tree, of texts that are always the same, and of
names between braces. `Inline` says so of a text, given the characters that are allowed. If they
hold everything but braces and line breaks, and the strings of a node hold nothing else, then the
text of the node is inline (`Node.inline_value`), whatever has been written before.
-/

namespace StylusToScss

variable {allowed : Char → Prop}

/-! ## Texts -/

/-- The character is no brace and breaks no line. -/
def isHarmless (c : Char) : Bool := c != '\x7b' && c != '\x7d' && c != '\n' && c != '\r'

/-- Allowed characters, and interpolations of names that consist of them. -/
inductive Inline (allowed : Char → Prop) : List Char → Prop
  | nil : Inline allowed []
  | char {c : Char} {rest : List Char} (h : allowed c) (more : Inline allowed rest) :
      Inline allowed (c :: rest)
  | interpolation {name rest : List Char} (h : ∀ c ∈ name, allowed c)
      (more : Inline allowed rest) :
      Inline allowed ('#' :: '\x7b' :: (name ++ '\x7d' :: rest))

theorem Inline.of_forall {text : List Char} (h : ∀ c ∈ text, allowed c) : Inline allowed text := by
  induction text with
  | nil => exact .nil
  | cons c rest ih =>
    obtain ⟨here, more⟩ := List.forall_mem_cons.1 h
    exact .char here (ih more)

theorem Inline.append {a b : List Char} (ha : Inline allowed a) (hb : Inline allowed b) :
    Inline allowed (a ++ b) := by
  induction ha with
  | nil => exact hb
  | char h _ ih => exact .char h ih
  | interpolation h _ ih =>
    rw [List.cons_append, List.cons_append, List.append_assoc]
    exact .interpolation h ih

/-- What holds of the allowed characters and of those around a name holds of all characters. -/
theorem Inline.forall {q : Char → Prop} {text : List Char} (h : Inline allowed text)
    (all : ∀ c, allowed c → q c) (around : ∀ c ∈ ['#', '\x7b', '\x7d'], q c) :
    ∀ c ∈ text, q c := by
  induction h with
  | nil => exact List.forall_mem_nil _
  | char h _ ih => exact List.forall_mem_cons.2 ⟨all _ h, ih⟩
  | interpolation h _ ih =>
    intro c hc
    simp only [List.mem_cons, List.mem_append] at hc
    rcases hc with rfl | rfl | hc | rfl | hc
    · exact around _ (by simp)
    · exact around _ (by simp)
    · exact all c (h c hc)
    · exact around _ (by simp)
    · exact ih c hc

theorem inline_append {a b : String} (ha : Inline allowed a.toList)
    (hb : Inline allowed b.toList) : Inline allowed (a ++ b).toList := by
  rw [String.toList_append]
  exact ha.append hb

theorem inline_join {texts : List String} (h : ∀ text ∈ texts, Inline allowed text.toList) :
    Inline allowed (String.join texts).toList := by
  induction texts with
  | nil => exact .nil
  | cons text rest ih =>
    obtain ⟨here, more⟩ := List.forall_mem_cons.1 h
    rw [String.join_cons]
    exact inline_append here (ih more)

theorem inline_intercalate {separator : String} {texts : List String}
    (hs : Inline allowed separator.toList) (h : ∀ text ∈ texts, Inline allowed text.toList) :
    Inline allowed (separator.intercalate texts).toList := by
  induction texts with
  | nil => exact .nil
  | cons text rest ih =>
    obtain ⟨here, more⟩ := List.forall_mem_cons.1 h
    cases rest with
    | nil =>
      rw [String.intercalate_singleton]
      exact here
    | cons next rest =>
      rw [String.intercalate_cons_cons]
      exact inline_append (inline_append here hs) (ih more)

/-- The texts of the fragments are inline. -/
abbrev AllInline (allowed : Char → Prop) (fragments : List Fragment) : Prop :=
  ∀ fragment ∈ fragments, Inline allowed fragment.text.toList

/-! ## Names -/

theorem allowed_bareName {name : String} (h : ∀ c ∈ name.toList, allowed c) :
    ∀ c ∈ (bareName name).toList, allowed c := by
  intro c hc
  rw [bareName, String.toList_ofList] at hc
  exact h c ((List.dropWhile_suffix _).subset hc)

/-- The values known so far are inline. -/
def Names.HoldInline (allowed : Char → Prop) (names : Names) : Prop :=
  ∀ value ∈ names.values, Inline allowed value.toList

theorem Names.HoldInline.property {names : Names} (h : names.HoldInline allowed)
    {property value : String} (found : names.property? property = some value) :
    Inline allowed value.toList := by
  obtain ⟨i, -, same⟩ := Option.map_eq_some_iff.1 found
  rw [← same]
  exact h _ (List.get_mem _ _)

/-! ## Numbers -/

theorem isHarmless_of_isDigit {c : Char} (h : c.isDigit = true) : isHarmless c = true := by
  have other (d : Char) (hd : d.isDigit = false) : (c != d) = true := by
    rw [bne_iff_ne]
    rintro rfl
    rw [h] at hd
    cases hd
  simp only [isHarmless, Bool.and_eq_true]
  exact ⟨⟨⟨other '\x7b' rfl, other '\x7d' rfl⟩, other '\n' rfl⟩, other '\r' rfl⟩

namespace Binary64

theorem harmless_unsignedText (rank : Fin rankLimit) :
    ∀ c ∈ unsignedText rank, isHarmless c = true := by
  obtain ⟨whole, fraction, same, -, allWhole, allFraction⟩ := (numeral_unsignedText rank).parts
  rw [same, positional]
  intro c hc
  split at hc
  · exact isHarmless_of_isDigit (allWhole c hc)
  · rcases List.mem_append.1 hc with hc | hc
    · exact isHarmless_of_isDigit (allWhole c hc)
    · rcases List.mem_cons.1 hc with rfl | hc
      · rfl
      · exact isHarmless_of_isDigit (allFraction c hc)

theorem harmless_formatNumber (x : Binary64) :
    ∀ c ∈ x.formatNumber.toList, isHarmless c = true := by
  cases x with
  | finite negative rank =>
    rw [toList_formatNumber]
    split
    · exact List.forall_mem_cons.2 ⟨rfl, harmless_unsignedText rank⟩
    · exact harmless_unsignedText rank
  | infinite negative =>
    have both : ∀ b, (Binary64.infinite b).formatNumber.toList.all isHarmless = true := by
      intro b
      cases b <;> rfl
    exact List.all_eq_true.1 (both negative)
  | nan => exact List.all_eq_true.1 rfl

end Binary64

/-! ## Values -/

theorem inline_literal {l : Literal} (h : SpelledIn allowed l.strings) :
    Inline allowed l.text.toList := by
  obtain ⟨value, quote, line⟩ := l
  obtain ⟨hv, hq⟩ := spelledIn_cons.1 h
  cases quote with
  | none => exact .of_forall hv
  | some quote =>
    have enclosing : Inline allowed (String.singleton quote).toList :=
      .of_forall (spelledIn_cons.1 hq).1
    exact inline_append (inline_append enclosing (.of_forall hv)) enclosing

section
variable (harmless : ∀ c, isHarmless c = true → allowed c)
include harmless

/-- A text that is always the same. -/
theorem inline_fixed {s : String} (h : s.toList.all isHarmless = true) :
    Inline allowed s.toList :=
  .of_forall fun c hc => harmless c (List.all_eq_true.1 h c hc)

theorem allowed_reference {name : String} (h : ∀ c ∈ name.toList, allowed c) :
    ∀ c ∈ (reference name).toList, allowed c := by
  rw [reference, String.toList_append]
  exact List.forall_mem_cons.2 ⟨harmless '$' rfl, allowed_bareName h⟩

theorem inline_reference {name : String} (h : ∀ c ∈ name.toList, allowed c) :
    Inline allowed (reference name).toList :=
  .of_forall (allowed_reference harmless h)

theorem inline_outputOperator {op : String} (h : ∀ c ∈ op.toList, allowed c) :
    Inline allowed (outputOperator op).toList := by
  unfold outputOperator
  split
  case h_7 => exact .of_forall h
  all_goals exact inline_fixed harmless rfl

theorem inline_parenthesize {text : String} (h : Inline allowed text.toList) :
    Inline allowed (parenthesize text).toList :=
  inline_append (inline_append (inline_fixed harmless rfl) h) (inline_fixed harmless rfl)

theorem inline_measure {value : Binary64} {unit : Option String}
    (h : SpelledIn allowed unit.toList) : Inline allowed (measureText value unit).toList := by
  refine inline_append (.of_forall fun c hc => ?_) ?_
  · exact harmless c (value.harmless_formatNumber c hc)
  · cases unit with
    | none => exact .nil
    | some letters => exact .of_forall (spelledIn_cons.1 h).1

theorem inline_unary {op operand : String} (h : ∀ c ∈ op.toList, allowed c)
    (ho : Inline allowed operand.toList) : Inline allowed (unaryText op operand).toList := by
  have spelled := inline_outputOperator harmless h
  simp only [unaryText]
  split
  · exact inline_append (inline_append spelled (inline_fixed harmless rfl)) ho
  · exact inline_append spelled ho

theorem inline_joined {separator : String} {fragments : List Fragment}
    (fixed : separator.toList.all isHarmless = true) (h : AllInline allowed fragments) :
    Inline allowed (Fragment.join separator fragments).text.toList := by
  refine inline_intercalate (inline_fixed harmless fixed) ?_
  intro text ht
  obtain ⟨fragment, hf, rfl⟩ := List.mem_map.1 ht
  exact h fragment hf

variable {view : View} (known : view.names.HoldInline allowed)
include known

theorem inline_resolve {name : String} (interpolated lookup : Bool)
    (h : ∀ c ∈ name.toList, allowed c) :
    Inline allowed (view.resolve name interpolated lookup).toList := by
  unfold View.resolve
  split
  · next value found =>
    cases lookup with
    | false => cases found
    | true => exact known.property found
  · split
    · have text : ("#\x7b" ++ reference name ++ "\x7d").toList =
          '#' :: '\x7b' :: ((reference name).toList ++ '\x7d' :: []) := by
        simp only [String.toList_append]
        rfl
      rw [text]
      exact .interpolation (allowed_reference harmless h) .nil
    · split
      · exact inline_reference harmless h
      · exact .of_forall h

end

variable {view : View}

mutual

theorem Node.inline_value (harmless : ∀ c, isHarmless c = true → allowed c)
    (known : view.names.HoldInline allowed) : ∀ node : Node, SpelledIn allowed node.strings →
    Yields (fun fragment => Inline allowed fragment.text.toList) (fun _ => True) (node.value view)
  | .expression ⟨nodes, isList, parenthesized, _⟩, h => by
    rw [Node.value, Expression.value]
    refine (inline_values harmless known nodes h).bind fun fragments inline => ?_
    have whole : Inline allowed
        (Fragment.join (if isList then ", " else " ") fragments).text.toList := by
      cases isList
      · exact inline_joined harmless rfl inline
      · exact inline_joined harmless rfl inline
    cases parenthesized with
    | false => exact whole
    | true => exact inline_parenthesize harmless whole
  | .ident name interpolated lookup _, h =>
    inline_resolve harmless known interpolated lookup (spelledIn_cons.1 h).1
  | .binding name value _ _ _, h => by
    obtain ⟨hn, hv⟩ := spelledIn_cons.1 h
    rw [Node.value]
    refine (value.inline_value harmless known hv).bind fun fragment inline => ?_
    have front := inline_append (inline_reference harmless hn)
      (inline_fixed harmless (s := ": ") rfl)
    exact inline_append front inline
  | .call name ⟨nodes, _⟩ _, h => by
    obtain ⟨hn, ha⟩ := spelledIn_cons.1 h
    rw [Node.value]
    refine (inline_argumentValues harmless known nodes ha).bind fun fragments inline => ?_
    exact inline_append (.of_forall hn)
      (inline_parenthesize harmless (inline_joined harmless rfl inline))
  | .arguments ⟨nodes, _⟩, h => by
    rw [Node.value]
    exact (inline_argumentValues harmless known nodes h).bind fun fragments inline =>
      inline_joined harmless rfl inline
  | .params ⟨nodes, _⟩, h => by
    rw [Node.value]
    exact (inline_argumentValues harmless known nodes h).bind fun fragments inline =>
      inline_joined harmless rfl inline
  | .binary op left right _, h => by
    obtain ⟨ho, hs⟩ := spelledIn_cons.1 h
    obtain ⟨hl, hr⟩ := spelledIn_append.1 hs
    rw [Node.value]
    refine (left.inline_value harmless known hl).bind fun first inline => ?_
    refine (right.inline_value harmless known hr).bind fun last inline' => ?_
    have blank := inline_fixed harmless (s := " ") rfl
    have spelled := inline_append (inline_append blank (inline_outputOperator harmless ho)) blank
    refine inline_intercalate spelled ?_
    simp only [List.map_cons, List.map_nil, List.forall_mem_cons]
    exact ⟨inline, inline', List.forall_mem_nil _⟩
  | .unary op operand _, h => by
    obtain ⟨ho, hv⟩ := spelledIn_cons.1 h
    rw [Node.value]
    refine (operand.inline_value harmless known hv).bind fun fragment inline => ?_
    refine inline_unary harmless ho ?_
    split
    · exact inline_parenthesize harmless inline
    · exact inline
  | .literal l, h => inline_literal h
  | .measure value unit _, h => inline_measure harmless h
  | .boolean true _, _ | .boolean false _, _ => inline_fixed harmless rfl
  | .color raw _, h => .of_forall (spelledIn_cons.1 h).1
  | .unsupported kind line, _ => by
    rw [Node.value]
    cases view.policy with
    | strict => trivial
    | lenient => exact Inline.nil
  | .importRule _ _, _ | .group _ _, _ | .selector _, _ | .block _, _ | .property _ _ _, _
  | .conditional _ _ _ _, _ | .loop _ _ _ _ _, _ | .definition _ _ _ _, _ => trivial

theorem inline_values (harmless : ∀ c, isHarmless c = true → allowed c)
    (known : view.names.HoldInline allowed) : ∀ nodes : List Node,
    SpelledIn allowed (nodeStrings nodes) →
    Yields (AllInline allowed) (fun _ => True) (values view nodes)
  | [], _ => List.forall_mem_nil _
  | node :: rest, h => by
    obtain ⟨hn, hr⟩ := spelledIn_append.1 h
    rw [values]
    refine (node.inline_value harmless known hn).bind fun first inline => ?_
    exact (inline_values harmless known rest hr).bind fun more inline' =>
      List.forall_mem_cons.2 ⟨inline, inline'⟩

theorem inline_argumentValues (harmless : ∀ c, isHarmless c = true → allowed c)
    (known : view.names.HoldInline allowed) : ∀ nodes : List Node,
    SpelledIn allowed (nodeStrings nodes) →
    Yields (AllInline allowed) (fun _ => True) (argumentValues view nodes)
  | [], _ => List.forall_mem_nil _
  | node :: rest, h => by
    obtain ⟨hn, hr⟩ := spelledIn_append.1 h
    have here := node.inline_value harmless known hn
    have behind := inline_argumentValues harmless known rest hr
    unfold argumentValues
    split
    · next none => cases none
    · next name _ _ same =>
      cases same
      have hname := (spelledIn_cons.1 hn).1
      refine behind.bind fun more inline' => List.forall_mem_cons.2 ⟨?_, inline'⟩
      cases view.inDefinition with
      | true => exact inline_reference harmless hname
      | false => exact inline_resolve harmless known false false hname
    · next same =>
      cases same
      refine here.bind fun first inline => ?_
      exact behind.bind fun more inline' => List.forall_mem_cons.2 ⟨inline, inline'⟩

end

section
variable (harmless : ∀ c, isHarmless c = true → allowed c) (known : view.names.HoldInline allowed)
include harmless known

theorem Expression.inline_value {expression : Expression}
    (h : SpelledIn allowed (nodeStrings expression.nodes)) :
    Yields (fun fragment => Inline allowed fragment.text.toList) (fun _ => True)
      (expression.value view) := by
  have node := (Node.expression expression).inline_value harmless known
  cases expression
  exact node h

theorem inline_segmentsValue {segments : List Node}
    (h : SpelledIn allowed (nodeStrings segments)) :
    Yields (fun fragment => Inline allowed fragment.text.toList) (fun _ => True)
      (segmentsValue view segments) := by
  unfold segmentsValue
  exact (inline_values harmless known segments h).bind fun fragments inline =>
    inline_joined harmless rfl inline

theorem inline_loopItem {node : Node} (h : SpelledIn allowed node.strings) :
    Yields (fun fragment => Inline allowed fragment.text.toList) (fun _ => True)
      (loopItem view node) := by
  fun_induction loopItem view node with
  | case1 name => exact inline_reference harmless (spelledIn_cons.1 h).1
  | case2 node _ _ ih => exact ih (spelledIn_append.1 h).1
  | case3 node => exact node.inline_value harmless known h

theorem inline_loopItems {nodes : List Node} (h : SpelledIn allowed (nodeStrings nodes)) :
    Yields (AllInline allowed) (fun _ => True) (nodes.mapM (loopItem view)) := by
  induction nodes with
  | nil => exact List.forall_mem_nil _
  | cons node rest ih =>
    obtain ⟨hn, hr⟩ := spelledIn_append.1 h
    rw [List.mapM_cons]
    refine (inline_loopItem harmless known hn).bind fun first inline => ?_
    exact (ih hr).bind fun more inline' => List.forall_mem_cons.2 ⟨inline, inline'⟩

end

end StylusToScss
