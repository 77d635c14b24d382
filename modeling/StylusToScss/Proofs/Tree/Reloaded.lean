import StylusToScss.Scss.Conversion
import StylusToScss.Tree.Json

/-!
# Trees that are written and read again

A tree that is written as JSON is read back as it was, unless one of its numbers is not finite:
such a number is written as `null`, which no number is read from. A line is read if it is a number
of 64 binary digits.

* `LoadsAs` says which trees are accepted and what is read from them. `Node.loads_fields` follows
  the tree: what the fields of a node are read as, one case for each kind.
* `Node.accepts_fields` follows the reader: no tree that is accepted holds a number that is not
  finite.
* `Stylesheet.ofJson?_toJson` puts the two together.
-/

namespace StylusToScss

/-! ## The numbers and the lines of a tree -/

section
variable (number : Binary64 → Bool) (line : Nat → Bool)

mutual

/-- Every number of a node satisfies `number`, and every line that the node holds `line`. -/
def Node.every : Node → Bool
  | .importRule path n => path.all (line ·.line) && line n
  | .group selectors b => everySelector selectors && b.every
  | .selector s => s.every
  | .block b => b.every
  | .property segments value n => everyNode segments && (value.every && line n)
  | .ident _ _ _ n => line n
  | .binding _ value _ _ n => line n && value.every
  | .expression e => e.every
  | .call _ a n => a.every && line n
  | .arguments a => a.every
  | .params p => p.every
  | .binary _ left right n => left.every && (right.every && line n)
  | .unary _ operand n => operand.every && line n
  | .conditional condition b alternatives n =>
    everyNode alternatives && (condition.every && (b.every && line n))
  | .loop _ _ source b n => source.every && (b.every && line n)
  | .literal l => line l.line
  | .measure value _ n => number value && line n
  | .boolean _ n => line n
  | .color _ n => line n
  | .definition _ p b n => p.every && (b.every && line n)
  | .unsupported _ n => line n

/-- `Node.every` of each node of a list. -/
def everyNode : List Node → Bool
  | [] => true
  | node :: rest => node.every && everyNode rest

/-- `Node.every` of a selector. -/
def Selector.every : Selector → Bool
  | ⟨segments, n⟩ => everyNode segments && line n

/-- `Node.every` of each selector of a list. -/
def everySelector : List Selector → Bool
  | [] => true
  | selector :: rest => selector.every && everySelector rest

/-- `Node.every` of a block. -/
def Block.every : Block → Bool
  | ⟨nodes, n⟩ => everyNode nodes && line n

/-- `Node.every` of an expression. -/
def Expression.every : Expression → Bool
  | ⟨nodes, _, _, n⟩ => everyNode nodes && line n

/-- `Node.every` of arguments. -/
def Arguments.every : Arguments → Bool
  | ⟨nodes, n⟩ => everyNode nodes && line n

end

end

/-- A number of at most 64 binary digits. -/
def fitsWord (n : Nat) : Bool := n < 18446744073709551616

/-- No number of the tree is infinite or no number at all. -/
def Stylesheet.isFinite (sheet : Stylesheet) : Bool :=
  everyNode Binary64.isFinite (fun _ => true) sheet.nodes

/-- Every line of the tree has at most 64 binary digits. -/
def Stylesheet.linesFit (sheet : Stylesheet) : Bool :=
  everyNode (fun _ => true) fitsWord sheet.nodes

/-! ## What is read from what was written -/

/-- Reading gives `a` if it is accepted, and fails if it is not. -/
def LoadsAs (read : Option α) (accepted : Bool) (a : α) : Prop :=
  read = if accepted then some a else none

namespace LoadsAs

variable {read : Option α} {p q : Bool} {a : α} {b : β} {f : α → Option β}

theorem of_eq (h : read = some a) : LoadsAs read true a := h

theorem bind (first : LoadsAs read p a) (second : LoadsAs (f a) q b) :
    LoadsAs (read >>= f) (p && q) b := by
  cases p with
  | false => exact congrArg (· >>= f) first
  | true => exact (congrArg (· >>= f) first).trans second

/-- A field that is always read. -/
theorem known (first : read = some a) (second : LoadsAs (f a) q b) : LoadsAs (read >>= f) q b :=
  bind (LoadsAs.of_eq first) second

theorem last (first : LoadsAs read p a) (second : f a = some b) : LoadsAs (read >>= f) p b := by
  simpa using first.bind (LoadsAs.of_eq second)

theorem field {fields : Json.Fields} {key : String} {value : Json}
    {g : { v : Json // sizeOf v < sizeOf fields } → Option β}
    (h : fields.lookup key = some value)
    (second : LoadsAs (g ⟨value, Json.sizeOf_lookup h⟩) q b) :
    LoadsAs (Json.find? fields key >>= g) q b :=
  known (Json.find?_eq_some h) second

end LoadsAs

open LoadsAs

theorem loads_line {fields : Json.Fields} {n : Nat}
    (h : fields.lookup "lineno" = some (.integer n)) :
    LoadsAs (Json.line? fields) (fitsWord n) n := by
  have fits : (0 ≤ (n : Int) ∧ (n : Int) < 18446744073709551616) ↔ fitsWord n = true := by
    rw [fitsWord, decide_eq_true_eq]
    omega
  unfold LoadsAs Json.line?
  simp only [h, fits, Int.toNat_natCast]

theorem loads_number {fields : Json.Fields} {x : Binary64}
    (h : fields.lookup "val" = some (Json.ofNumber x)) :
    LoadsAs (Json.number? fields "val") x.isFinite x := by
  unfold LoadsAs Json.number?
  rw [h]
  cases finite : x.isFinite <;> simp [Json.ofNumber, finite]

theorem optionalText?_ofOptionalText {fields : Json.Fields} {key : String} {text : Option String}
    (h : fields.lookup key = some (Json.ofOptionalText text)) :
    Json.optionalText? fields key = some text := by
  unfold Json.optionalText?
  rw [h]
  cases text <;> rfl

theorem optionalChar?_ofOptionalText {fields : Json.Fields} {key : String} {c : Option Char}
    (h : fields.lookup key = some (Json.ofOptionalText (c.map String.singleton))) :
    Json.optionalChar? fields key = some c := by
  unfold Json.optionalChar?
  rw [optionalText?_ofOptionalText h]
  cases c with
  | none => rfl
  | some c => simp

theorem Literal.loads_fields (literal : Literal) {fields : Json.Fields}
    (value : fields.lookup "val" = some (.text literal.value))
    (quote : fields.lookup "quote" =
      some (Json.ofOptionalText (literal.quote.map String.singleton)))
    (line : fields.lookup "lineno" = some (.integer literal.line)) :
    LoadsAs (Literal.ofFields? fields) (fitsWord literal.line) literal := by
  refine known (by rw [Json.text?, value]) ?_
  refine known (optionalChar?_ofOptionalText quote) ?_
  exact (loads_line line).last rfl

theorem loads_literals (literals : List Literal) :
    LoadsAs (literalsOfJson? (.array (literals.map Literal.toJson)))
      (literals.all (fitsWord ·.line)) literals := by
  show LoadsAs ((literals.map Literal.toJson).mapM Literal.ofJson?) _ _
  induction literals with
  | nil => rfl
  | cons literal rest ih =>
    rw [List.map_cons, List.mapM_cons]
    exact (literal.loads_fields rfl rfl rfl).bind (ih.last rfl)

mutual

/-- What the fields of a node are read as. -/
theorem Node.loads_fields : ∀ node : Node,
    LoadsAs (Node.ofFields? node.kind (("__type", .text node.kind) :: node.fields))
      (node.every Binary64.isFinite fitsWord) node
  | .importRule path n => by
    rw [Node.kind, Node.ofFields?]
    refine field rfl ?_
    exact (loads_literals path).bind ((loads_line rfl).last rfl)
  | .group selectors b => by
    rw [Node.kind, Node.ofFields?]
    refine field rfl (field rfl ?_)
    exact (loads_selectors selectors).bind (b.loads_object.last rfl)
  | .selector ⟨segments, n⟩ => by
    rw [Node.kind, Node.ofFields?]
    exact (loads_selector segments rfl rfl).last rfl
  | .block ⟨nodes, n⟩ => by
    rw [Node.kind, Node.ofFields?]
    exact (loads_block nodes rfl rfl).last rfl
  | .property segments value n => by
    rw [Node.kind, Node.ofFields?]
    refine field rfl (field rfl ?_)
    refine (loads_nodes segments).bind ?_
    exact value.loads_object.bind ((loads_line rfl).last rfl)
  | .ident name interpolated lookup n => by
    rw [Node.kind, Node.ofFields?]
    refine known rfl (known rfl (known rfl ?_))
    refine (loads_line rfl).last ?_
    have missing : (("__type", .text "Ident") ::
        (Node.ident name interpolated lookup n).fields).lookup "val" = some .null := rfl
    rw [Json.find?_eq_some missing]
    rfl
  | .binding name value interpolated lookup n => by
    rw [Node.kind, Node.ofFields?]
    refine known rfl (known rfl (known rfl ?_))
    refine (loads_line rfl).bind ?_
    have present : (("__type", .text "Ident") ::
        (Node.binding name value interpolated lookup n).fields).lookup "val" =
          some (ofKind value.kind value.fields) := rfl
    rw [Json.find?_eq_some present]
    exact value.loads_object.last rfl
  | .expression ⟨nodes, isList, parenthesized, n⟩ => by
    rw [Node.kind, Node.ofFields?]
    exact (loads_expression nodes rfl rfl rfl rfl).last rfl
  | .call name a n => by
    rw [Node.kind, Node.ofFields?]
    refine field rfl (known rfl ?_)
    exact a.loads_object.bind ((loads_line rfl).last rfl)
  | .arguments ⟨nodes, n⟩ => by
    rw [Node.kind, Node.ofFields?]
    exact (loads_arguments nodes rfl rfl).last rfl
  | .params ⟨nodes, n⟩ => by
    rw [Node.kind, Node.ofFields?]
    exact (loads_arguments nodes rfl rfl).last rfl
  | .binary op left right n => by
    rw [Node.kind, Node.ofFields?]
    refine field rfl (field rfl (known rfl ?_))
    refine left.loads_object.bind ?_
    exact right.loads_object.bind ((loads_line rfl).last rfl)
  | .unary op operand n => by
    rw [Node.kind, Node.ofFields?]
    refine field rfl (known rfl ?_)
    exact operand.loads_object.bind ((loads_line rfl).last rfl)
  | .conditional condition b alternatives n => by
    rw [Node.kind, Node.ofFields?]
    refine field rfl (field rfl ?_)
    have present : (("__type", .text "If") ::
        (Node.conditional condition b alternatives n).fields).lookup "elses" =
          some (.array (nodesToJson alternatives)) := rfl
    rw [Json.find?_eq_some present]
    refine (loads_nodes alternatives).bind ?_
    refine condition.loads_object.bind ?_
    exact b.loads_object.bind ((loads_line rfl).last rfl)
  | .loop item key source b n => by
    rw [Node.kind, Node.ofFields?]
    refine field rfl (field rfl (known rfl ?_))
    refine known (optionalText?_ofOptionalText rfl) ?_
    refine source.loads_object.bind ?_
    exact b.loads_object.bind ((loads_line rfl).last rfl)
  | .literal l => by
    rw [Node.kind, Node.ofFields?]
    exact (l.loads_fields rfl rfl rfl).last rfl
  | .measure value unit n => by
    rw [Node.kind, Node.ofFields?]
    refine (loads_number rfl).bind ?_
    refine known (optionalText?_ofOptionalText rfl) ?_
    exact (loads_line rfl).last rfl
  | .boolean value n => by
    rw [Node.kind, Node.ofFields?]
    exact known rfl ((loads_line rfl).last rfl)
  | .color raw n => by
    rw [Node.kind, Node.ofFields?]
    exact known rfl ((loads_line rfl).last rfl)
  | .definition name p b n => by
    rw [Node.kind, Node.ofFields?]
    refine field rfl (field rfl (known rfl ?_))
    refine p.loads_object.bind ?_
    exact b.loads_object.bind ((loads_line rfl).last rfl)
  | .unsupported kind n => by
    rw [Node.kind, Node.ofFields?]
    exact known rfl ((loads_line rfl).last rfl)

theorem Node.loads_object (node : Node) :
    LoadsAs (Node.ofJson? (ofKind node.kind node.fields))
      (node.every Binary64.isFinite fitsWord) node := by
  rw [ofKind, Node.ofJson?]
  exact known rfl node.loads_fields

theorem loads_items : ∀ nodes : List Node,
    LoadsAs (nodesOfItems? (nodesToJson nodes)) (everyNode Binary64.isFinite fitsWord nodes) nodes
  | [] => by
    rw [nodesToJson, nodesOfItems?]
    exact LoadsAs.of_eq rfl
  | node :: rest => by
    rw [nodesToJson, nodesOfItems?]
    exact node.loads_object.bind ((loads_items rest).last rfl)

theorem loads_nodes (nodes : List Node) :
    LoadsAs (nodesOfJson? (.array (nodesToJson nodes)))
      (everyNode Binary64.isFinite fitsWord nodes) nodes := by
  rw [nodesOfJson?]
  exact loads_items nodes

theorem loads_selector (segments : List Node) {n : Nat} {fields : Json.Fields}
    (nodes : fields.lookup "segments" = some (.array (nodesToJson segments)))
    (line : fields.lookup "lineno" = some (.integer n)) :
    LoadsAs (Selector.ofFields? fields)
      (everyNode Binary64.isFinite fitsWord segments && fitsWord n) ⟨segments, n⟩ := by
  rw [Selector.ofFields?]
  refine field nodes ?_
  exact (loads_nodes segments).bind ((loads_line line).last rfl)

theorem loads_selectorItems : ∀ selectors : List Selector,
    LoadsAs (selectorsOfItems? (selectorsToJson selectors))
      (everySelector Binary64.isFinite fitsWord selectors) selectors
  | [] => by
    rw [selectorsToJson, selectorsOfItems?]
    exact LoadsAs.of_eq rfl
  | ⟨segments, n⟩ :: rest => by
    rw [selectorsToJson, selectorsOfItems?]
    exact (loads_selector segments rfl rfl).bind ((loads_selectorItems rest).last rfl)

theorem loads_selectors (selectors : List Selector) :
    LoadsAs (selectorsOfJson? (.array (selectorsToJson selectors)))
      (everySelector Binary64.isFinite fitsWord selectors) selectors := by
  rw [selectorsOfJson?]
  exact loads_selectorItems selectors

theorem loads_block (members : List Node) {n : Nat} {fields : Json.Fields}
    (nodes : fields.lookup "nodes" = some (.array (nodesToJson members)))
    (line : fields.lookup "lineno" = some (.integer n)) :
    LoadsAs (Block.ofFields? fields)
      (everyNode Binary64.isFinite fitsWord members && fitsWord n) ⟨members, n⟩ := by
  rw [Block.ofFields?]
  refine field nodes ?_
  exact (loads_nodes members).bind ((loads_line line).last rfl)

theorem Block.loads_object : ∀ b : Block,
    LoadsAs (Block.ofJson? (.object b.fields)) (b.every Binary64.isFinite fitsWord) b
  | ⟨nodes, n⟩ => by
    rw [Block.ofJson?]
    exact loads_block nodes rfl rfl

theorem loads_expression (values : List Node) {isList parenthesized : Bool} {n : Nat}
    {fields : Json.Fields} (nodes : fields.lookup "nodes" = some (.array (nodesToJson values)))
    (list : fields.lookup "isList" = some (.bool isList))
    (grouped : fields.lookup "parenthesized" = some (.bool parenthesized))
    (line : fields.lookup "lineno" = some (.integer n)) :
    LoadsAs (Expression.ofFields? fields)
      (everyNode Binary64.isFinite fitsWord values && fitsWord n)
      ⟨values, isList, parenthesized, n⟩ := by
  rw [Expression.ofFields?]
  refine field nodes ?_
  refine (loads_nodes values).bind ?_
  refine known (by rw [Json.flag?, list]) ?_
  refine known (by rw [Json.flag?, grouped]) ?_
  exact (loads_line line).last rfl

theorem Expression.loads_object : ∀ e : Expression,
    LoadsAs (Expression.ofJson? (.object e.fields)) (e.every Binary64.isFinite fitsWord) e
  | ⟨nodes, isList, parenthesized, n⟩ => by
    rw [Expression.ofJson?]
    exact loads_expression nodes rfl rfl rfl rfl

theorem loads_arguments (values : List Node) {n : Nat} {fields : Json.Fields}
    (nodes : fields.lookup "nodes" = some (.array (nodesToJson values)))
    (line : fields.lookup "lineno" = some (.integer n)) :
    LoadsAs (Arguments.ofFields? fields)
      (everyNode Binary64.isFinite fitsWord values && fitsWord n) ⟨values, n⟩ := by
  rw [Arguments.ofFields?]
  refine field nodes ?_
  exact (loads_nodes values).bind ((loads_line line).last rfl)

theorem Arguments.loads_object : ∀ a : Arguments,
    LoadsAs (Arguments.ofJson? (.object a.fields)) (a.every Binary64.isFinite fitsWord) a
  | ⟨nodes, n⟩ => by
    rw [Arguments.ofJson?]
    exact loads_arguments nodes rfl rfl

end

/-! ## What is accepted -/

/-- Whatever is read satisfies `holds`. -/
def Accepts (read : Option α) (holds : α → Bool) : Prop :=
  ∀ a, read = some a → holds a = true

namespace Accepts

variable {read : Option α} {p : α → Bool} {q : β → Bool} {f : α → Option β}

theorem fails : Accepts none p := by
  rintro a ⟨⟩

theorem ok {a : α} (h : p a = true) : Accepts (some a) p := by
  rintro _ ⟨⟩
  exact h

theorem bind (first : Accepts read p) (second : ∀ a, p a = true → Accepts (f a) q) :
    Accepts (read >>= f) q := by
  intro b h
  obtain ⟨a, here, there⟩ := Option.bind_eq_some_iff.1 h
  exact second a (first a here) b there

/-- A field that nothing is asked of. -/
theorem any (second : ∀ a, Accepts (f a) q) : Accepts (read >>= f) q :=
  bind (p := fun _ => true) (fun _ _ => rfl) fun a _ => second a

end Accepts

open Accepts

theorem accepts_line (fields : Json.Fields) : Accepts (Json.line? fields) fitsWord := by
  intro n h
  unfold Json.line? at h
  split at h
  · split at h
    · next bounds =>
      cases h
      rw [fitsWord, decide_eq_true_eq]
      omega
    · cases h
  · cases h
  · cases h
    rfl

theorem accepts_number (fields : Json.Fields) (key : String) :
    Accepts (Json.number? fields key) Binary64.isFinite := by
  intro x h
  unfold Json.number? at h
  split at h
  · split at h
    · next finite =>
      cases h
      exact finite
    · cases h
  · split at h
    · next finite =>
      cases h
      exact finite
    · cases h
  · cases h

theorem Literal.accepts_fields (fields : Json.Fields) :
    Accepts (Literal.ofFields? fields) (fitsWord ·.line) :=
  any fun _ => any fun _ => (accepts_line fields).bind fun _ fits => ok fits

theorem Literal.accepts_object : ∀ json : Json, Accepts (Literal.ofJson? json) (fitsWord ·.line)
  | .object fields => Literal.accepts_fields fields
  | .null | .bool _ | .integer _ | .real _ | .text _ | .array _ => fails

theorem accepts_literals : ∀ json : Json,
    Accepts (literalsOfJson? json) (·.all (fitsWord ·.line))
  | .array items => by
    show Accepts (items.mapM Literal.ofJson?) _
    induction items with
    | nil => exact ok rfl
    | cons item rest ih =>
      rw [List.mapM_cons]
      refine (Literal.accepts_object item).bind fun literal fits => ih.bind fun literals all => ?_
      exact ok (by rw [List.all_cons, fits, all]; rfl)
  | .null | .bool _ | .integer _ | .real _ | .text _ | .object _ => fails

mutual

theorem Node.accepts_object (json : Json) :
    Accepts (Node.ofJson? json) (Node.every Binary64.isFinite fitsWord) := by
  rw [Node.ofJson?.eq_def]
  split
  · next fields => exact any fun kind => Node.accepts_fields kind fields
  · exact fails
termination_by 3 * sizeOf json + 0

/-- A node that is read holds finite numbers and lines of 64 binary digits only. -/
theorem Node.accepts_fields (kind : String) (fields : Json.Fields) :
    Accepts (Node.ofFields? kind fields) (Node.every Binary64.isFinite fitsWord) := by
  have line := accepts_line fields
  -- One case for each kind, in the order of the reader, and one for an unknown kind.
  rw [Node.ofFields?.eq_def]
  split
  · refine any fun path => (accepts_literals path.1).bind fun _ all => ?_
    exact line.bind fun _ fits => ok (by simp [Node.every, all, fits])
  · refine any fun selectors => any fun b => ?_
    refine (accepts_selectors selectors.1).bind fun _ all => ?_
    exact (Block.accepts_object b.1).bind fun _ within => ok (by simp [Node.every, all, within])
  · exact (Selector.accepts_fields fields).bind fun _ within => ok within
  · exact (Block.accepts_fields fields).bind fun _ within => ok within
  · refine any fun segments => any fun value => ?_
    refine (accepts_nodes segments.1).bind fun _ all => ?_
    refine (Expression.accepts_object value.1).bind fun _ within => ?_
    exact line.bind fun _ fits => ok (by simp [Node.every, all, within, fits])
  · refine any fun _ => any fun _ => any fun _ => line.bind fun _ fits => ?_
    split
    · exact ok fits
    · exact ok fits
    · next value _ _ =>
      refine (Node.accepts_object value.1).bind fun _ within => ?_
      exact ok (by simp [Node.every, within, fits])
  · exact (Expression.accepts_fields fields).bind fun _ within => ok within
  · refine any fun a => any fun _ => ?_
    refine (Arguments.accepts_object a.1).bind fun _ within => ?_
    exact line.bind fun _ fits => ok (by simp [Node.every, within, fits])
  · exact (Arguments.accepts_fields fields).bind fun _ within => ok within
  · exact (Arguments.accepts_fields fields).bind fun _ within => ok within
  · refine any fun left => any fun right => any fun _ => ?_
    refine (Node.accepts_object left.1).bind fun _ first => ?_
    refine (Node.accepts_object right.1).bind fun _ second => ?_
    exact line.bind fun _ fits => ok (by simp [Node.every, first, second, fits])
  · refine any fun operand => any fun _ => ?_
    refine (Node.accepts_object operand.1).bind fun _ within => ?_
    exact line.bind fun _ fits => ok (by simp [Node.every, within, fits])
  · refine any fun condition => any fun b => ?_
    -- What follows the alternatives, whether they are missing or not.
    have after (alternatives : List Node)
        (all : everyNode Binary64.isFinite fitsWord alternatives = true) :
        Accepts
          (do
            return .conditional (← Node.ofJson? condition.1) (← Block.ofJson? b.1) alternatives
              (← Json.line? fields))
          (Node.every Binary64.isFinite fitsWord) := by
      refine (Node.accepts_object condition.1).bind fun _ tested => ?_
      refine (Block.accepts_object b.1).bind fun _ within => ?_
      exact line.bind fun _ fits => ok (by simp [Node.every, all, tested, within, fits])
    split
    · exact after [] rfl
    · next alternatives _ => exact (accepts_nodes alternatives.1).bind after
  · refine any fun source => any fun b => any fun _ => any fun _ => ?_
    refine (Expression.accepts_object source.1).bind fun _ value => ?_
    refine (Block.accepts_object b.1).bind fun _ within => ?_
    exact line.bind fun _ fits => ok (by simp [Node.every, value, within, fits])
  · exact (Literal.accepts_fields fields).bind fun _ fits => ok fits
  · refine (accepts_number fields "val").bind fun _ finite => any fun _ => ?_
    exact line.bind fun _ fits => ok (by simp [Node.every, finite, fits])
  · exact any fun _ => line.bind fun _ fits => ok fits
  · exact any fun _ => line.bind fun _ fits => ok fits
  · refine any fun p => any fun b => any fun _ => ?_
    refine (Arguments.accepts_object p.1).bind fun _ declared => ?_
    refine (Block.accepts_object b.1).bind fun _ within => ?_
    exact line.bind fun _ fits => ok (by simp [Node.every, declared, within, fits])
  · exact any fun _ => line.bind fun _ fits => ok fits
  · exact fails
termination_by 3 * sizeOf fields + 2

theorem accepts_nodes (json : Json) :
    Accepts (nodesOfJson? json) (everyNode Binary64.isFinite fitsWord) := by
  rw [nodesOfJson?.eq_def]
  split
  · next items => exact accepts_items items
  · exact fails
termination_by 3 * sizeOf json + 0

theorem accepts_items (items : List Json) :
    Accepts (nodesOfItems? items) (everyNode Binary64.isFinite fitsWord) := by
  rw [nodesOfItems?.eq_def]
  split
  · exact ok rfl
  · next item rest =>
    refine (Node.accepts_object item).bind fun _ within => ?_
    exact (accepts_items rest).bind fun _ all => ok (by simp [everyNode, within, all])
termination_by 3 * sizeOf items + 0

theorem Selector.accepts_fields (fields : Json.Fields) :
    Accepts (Selector.ofFields? fields) (Selector.every Binary64.isFinite fitsWord) := by
  rw [Selector.ofFields?.eq_def]
  refine any fun segments => (accepts_nodes segments.1).bind fun _ all => ?_
  exact (accepts_line fields).bind fun _ fits => ok (by simp [Selector.every, all, fits])
termination_by 3 * sizeOf fields + 1

theorem accepts_selectors (json : Json) :
    Accepts (selectorsOfJson? json) (everySelector Binary64.isFinite fitsWord) := by
  rw [selectorsOfJson?.eq_def]
  split
  · next items => exact accepts_selectorItems items
  · exact fails
termination_by 3 * sizeOf json + 0

theorem accepts_selectorItems (items : List Json) :
    Accepts (selectorsOfItems? items) (everySelector Binary64.isFinite fitsWord) := by
  rw [selectorsOfItems?.eq_def]
  split
  · exact ok rfl
  · next fields rest =>
    refine (Selector.accepts_fields fields).bind fun _ within => ?_
    exact (accepts_selectorItems rest).bind fun _ all => ok (by simp [everySelector, within, all])
  · exact fails
termination_by 3 * sizeOf items + 0

theorem Block.accepts_object (json : Json) :
    Accepts (Block.ofJson? json) (Block.every Binary64.isFinite fitsWord) := by
  rw [Block.ofJson?.eq_def]
  split
  · next fields => exact Block.accepts_fields fields
  · exact fails
termination_by 3 * sizeOf json + 0

theorem Block.accepts_fields (fields : Json.Fields) :
    Accepts (Block.ofFields? fields) (Block.every Binary64.isFinite fitsWord) := by
  rw [Block.ofFields?.eq_def]
  refine any fun nodes => (accepts_nodes nodes.1).bind fun _ all => ?_
  exact (accepts_line fields).bind fun _ fits => ok (by simp [Block.every, all, fits])
termination_by 3 * sizeOf fields + 1

theorem Expression.accepts_object (json : Json) :
    Accepts (Expression.ofJson? json) (Expression.every Binary64.isFinite fitsWord) := by
  rw [Expression.ofJson?.eq_def]
  split
  · next fields => exact Expression.accepts_fields fields
  · exact fails
termination_by 3 * sizeOf json + 0

theorem Expression.accepts_fields (fields : Json.Fields) :
    Accepts (Expression.ofFields? fields) (Expression.every Binary64.isFinite fitsWord) := by
  rw [Expression.ofFields?.eq_def]
  refine any fun nodes => (accepts_nodes nodes.1).bind fun _ all => any fun _ => any fun _ => ?_
  exact (accepts_line fields).bind fun _ fits => ok (by simp [Expression.every, all, fits])
termination_by 3 * sizeOf fields + 1

theorem Arguments.accepts_object (json : Json) :
    Accepts (Arguments.ofJson? json) (Arguments.every Binary64.isFinite fitsWord) := by
  rw [Arguments.ofJson?.eq_def]
  split
  · next fields => exact Arguments.accepts_fields fields
  · exact fails
termination_by 3 * sizeOf json + 0

theorem Arguments.accepts_fields (fields : Json.Fields) :
    Accepts (Arguments.ofFields? fields) (Arguments.every Binary64.isFinite fitsWord) := by
  rw [Arguments.ofFields?.eq_def]
  refine any fun nodes => (accepts_nodes nodes.1).bind fun _ all => ?_
  exact (accepts_line fields).bind fun _ fits => ok (by simp [Arguments.every, all, fits])
termination_by 3 * sizeOf fields + 1

end

/-! ## The round trip -/

section
variable (number : Binary64 → Bool) (line : Nat → Bool)

mutual

theorem Node.every_split : ∀ node : Node, node.every number line =
    (node.every number (fun _ => true) && node.every (fun _ => true) line)
  | .importRule .. | .ident .. | .literal _ | .measure .. | .boolean .. | .color ..
  | .unsupported .. => by simp [Node.every]
  | .group selectors b => by
    rw [Node.every, everySelector_split selectors, b.every_split]
    simp only [Node.every, Bool.and_assoc, Bool.and_left_comm]
  | .selector s => s.every_split
  | .block b => b.every_split
  | .property segments value _ => by
    rw [Node.every, everyNode_split segments, value.every_split]
    simp only [Node.every, Bool.and_assoc, Bool.and_left_comm, Bool.and_true]
  | .binding _ value _ _ _ => by
    rw [Node.every, value.every_split]
    simp only [Node.every, Bool.and_left_comm, Bool.true_and]
  | .expression e => e.every_split
  | .call _ a _ => by
    rw [Node.every, a.every_split]
    simp only [Node.every, Bool.and_assoc, Bool.and_true]
  | .arguments a => a.every_split
  | .params p => p.every_split
  | .binary _ left right _ => by
    rw [Node.every, left.every_split, right.every_split]
    simp only [Node.every, Bool.and_assoc, Bool.and_left_comm, Bool.and_true]
  | .unary _ operand _ => by
    rw [Node.every, operand.every_split]
    simp only [Node.every, Bool.and_assoc, Bool.and_true]
  | .conditional condition b alternatives _ => by
    rw [Node.every, everyNode_split alternatives, condition.every_split, b.every_split]
    simp only [Node.every, Bool.and_assoc, Bool.and_left_comm, Bool.and_true]
  | .loop _ _ source b _ => by
    rw [Node.every, source.every_split, b.every_split]
    simp only [Node.every, Bool.and_assoc, Bool.and_left_comm, Bool.and_true]
  | .definition _ p b _ => by
    rw [Node.every, p.every_split, b.every_split]
    simp only [Node.every, Bool.and_assoc, Bool.and_left_comm, Bool.and_true]

theorem everyNode_split : ∀ nodes : List Node, everyNode number line nodes =
    (everyNode number (fun _ => true) nodes && everyNode (fun _ => true) line nodes)
  | [] => rfl
  | node :: rest => by
    rw [everyNode, node.every_split, everyNode_split rest]
    simp only [everyNode, Bool.and_assoc, Bool.and_left_comm]

theorem Selector.every_split : ∀ s : Selector, s.every number line =
    (s.every number (fun _ => true) && s.every (fun _ => true) line)
  | ⟨segments, _⟩ => by
    rw [Selector.every, everyNode_split segments]
    simp only [Selector.every, Bool.and_assoc, Bool.and_true]

theorem everySelector_split : ∀ selectors : List Selector, everySelector number line selectors =
    (everySelector number (fun _ => true) selectors && everySelector (fun _ => true) line selectors)
  | [] => rfl
  | selector :: rest => by
    rw [everySelector, selector.every_split, everySelector_split rest]
    simp only [everySelector, Bool.and_assoc, Bool.and_left_comm]

theorem Block.every_split : ∀ b : Block, b.every number line =
    (b.every number (fun _ => true) && b.every (fun _ => true) line)
  | ⟨nodes, _⟩ => by
    rw [Block.every, everyNode_split nodes]
    simp only [Block.every, Bool.and_assoc, Bool.and_true]

theorem Expression.every_split : ∀ e : Expression, e.every number line =
    (e.every number (fun _ => true) && e.every (fun _ => true) line)
  | ⟨nodes, _, _, _⟩ => by
    rw [Expression.every, everyNode_split nodes]
    simp only [Expression.every, Bool.and_assoc, Bool.and_true]

theorem Arguments.every_split : ∀ a : Arguments, a.every number line =
    (a.every number (fun _ => true) && a.every (fun _ => true) line)
  | ⟨nodes, _⟩ => by
    rw [Arguments.every, everyNode_split nodes]
    simp only [Arguments.every, Bool.and_assoc, Bool.and_true]

end

end

theorem Stylesheet.loads_toJson (sheet : Stylesheet) :
    LoadsAs (Stylesheet.ofJson? sheet.toJson) (sheet.isFinite && sheet.linesFit) sheet := by
  rw [Stylesheet.isFinite, Stylesheet.linesFit, ← everyNode_split]
  exact field rfl ((loads_nodes sheet.nodes).last rfl)

theorem Stylesheet.accepts_ofJson? : ∀ json : Json,
    Accepts (Stylesheet.ofJson? json) fun sheet => sheet.isFinite && sheet.linesFit
  | .object fields => by
    refine any fun nodes => (accepts_nodes nodes.1).bind fun read all => ok ?_
    rw [Stylesheet.isFinite, Stylesheet.linesFit, ← everyNode_split]
    exact all
  | .null | .bool _ | .integer _ | .real _ | .text _ | .array _ => fails

/-- A tree whose numbers are finite is read back as it was written, and any other one is refused.
What has been read once stays as it is when it is written and read again, and a tree that is read
back converts as the one that was written. -/
theorem Stylesheet.ofJson?_toJson (sheet : Stylesheet) :
    Stylesheet.ofJson? sheet.toJson =
        (if sheet.isFinite && sheet.linesFit then some sheet else none) ∧
      (∀ json, (Stylesheet.ofJson? json).bind (fun read => Stylesheet.ofJson? read.toJson) =
        Stylesheet.ofJson? json) ∧
      ∀ options, (Stylesheet.ofJson? sheet.toJson).map (Stylesheet.convert options) =
        if sheet.isFinite && sheet.linesFit then some (sheet.convert options) else none := by
  refine ⟨sheet.loads_toJson, fun json => ?_, fun options => ?_⟩
  · cases accepted : Stylesheet.ofJson? json with
    | none => rfl
    | some read =>
      have within : (read.isFinite && read.linesFit) = true :=
        Stylesheet.accepts_ofJson? json read accepted
      have reloaded := read.loads_toJson
      rw [LoadsAs, within] at reloaded
      exact reloaded
  · rw [sheet.loads_toJson]
    split <;> rfl

end StylusToScss
