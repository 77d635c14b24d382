import Mathlib.Data.List.Induction
import StylusToScss.Proofs.Interpolation
import StylusToScss.Proofs.Pieces

/-!
# Where a list of selectors is cut

A comma separates two selectors where the text before it leads outside of quotes, parentheses and
brackets. `Leads` says so of a text without the state that is carried along while cutting:
everything between two quotes is passed at once, and a closing parenthesis or bracket closes one
that is open, if there is one.

* `leads_iff`: this is where the state that is carried along is the one it started with.
* `divides_selectorPieces`: the pieces are those between the commas that separate.
* `splitSelectors_stable`: cutting a selector, or the selectors joined again, gives them back.
-/

namespace StylusToScss

open Text

/-! ## Outside of quotes -/

/-- The text leads outside of quotes to this depth of parentheses and brackets. -/
inductive Leads : Nat → List Char → Prop
  | nil : Leads 0 []
  | plain {depth : Nat} {text : List Char} {c : Char} (before : Leads depth text)
      (other : c ∉ ['"', '\'', '(', '[', ')', ']']) : Leads depth (text ++ [c])
  | quoted {depth : Nat} {text inside : List Char} {quote : Char} (before : Leads depth text)
      (isQuote : quote = '"' ∨ quote = '\'') (within : quote ∉ inside) :
      Leads depth (text ++ quote :: inside ++ [quote])
  | opening {depth : Nat} {text : List Char} {c : Char} (before : Leads depth text)
      (opens : c = '(' ∨ c = '[') : Leads (depth + 1) (text ++ [c])
  | closing {depth : Nat} {text : List Char} {c : Char} (before : Leads depth text)
      (closes : c = ')' ∨ c = ']') : Leads (depth - 1) (text ++ [c])

namespace SelectorState

/-- The state behind a text. -/
def along (state : SelectorState) (text : List Char) : SelectorState := text.foldl after state

theorem along_append (state : SelectorState) (front back : List Char) :
    state.along (front ++ back) = (state.along front).along back :=
  List.foldl_append

theorem along_concat (state : SelectorState) (text : List Char) (c : Char) :
    state.along (text ++ [c]) = (state.along text).after c :=
  List.foldl_concat _ _ _ _

variable {depth : Nat} {quote c : Char}

theorem after_quote (isQuote : quote = '"' ∨ quote = '\'') :
    (⟨depth, none⟩ : SelectorState).after quote = ⟨depth, some quote⟩ :=
  if_pos isQuote

theorem after_closingQuote :
    (⟨depth, some quote⟩ : SelectorState).after quote = ⟨depth, none⟩ :=
  if_pos rfl

theorem after_inside (other : c ≠ quote) :
    (⟨depth, some quote⟩ : SelectorState).after c = ⟨depth, some quote⟩ :=
  if_neg other

theorem along_inside {inside : List Char} (within : quote ∉ inside) :
    (⟨depth, some quote⟩ : SelectorState).along inside = ⟨depth, some quote⟩ := by
  induction inside with
  | nil => rfl
  | cons c inside ih =>
    show ((⟨depth, some quote⟩ : SelectorState).after c).along inside = _
    rw [after_inside (List.ne_of_not_mem_cons within).symm,
      ih (List.not_mem_of_not_mem_cons within)]

theorem after_opening (opens : c = '(' ∨ c = '[') :
    (⟨depth, none⟩ : SelectorState).after c = ⟨depth + 1, none⟩ := by
  rcases opens with rfl | rfl <;> rfl

theorem after_closing (closes : c = ')' ∨ c = ']') :
    (⟨depth, none⟩ : SelectorState).after c = ⟨depth - 1, none⟩ := by
  rcases closes with rfl | rfl <;> rfl

theorem after_plain (other : c ∉ ['"', '\'', '(', '[', ')', ']']) :
    (⟨depth, none⟩ : SelectorState).after c = ⟨depth, none⟩ := by
  simp only [List.mem_cons, List.not_mem_nil, or_false, not_or] at other
  simp [after, other]

/-- What kind of character stands outside of quotes. -/
theorem kinds (c : Char) : (c = '"' ∨ c = '\'') ∨ (c = '(' ∨ c = '[') ∨ (c = ')' ∨ c = ']') ∨
    c ∉ ['"', '\'', '(', '[', ')', ']'] := by
  simp only [List.mem_cons, List.not_mem_nil, or_false, not_or]
  tauto

end SelectorState

open SelectorState

theorem Leads.along {depth : Nat} {text : List Char} (h : Leads depth text) :
    SelectorState.outside.along text = ⟨depth, none⟩ := by
  induction h with
  | nil => rfl
  | plain _ other ih => rw [along_concat, ih, after_plain other]
  | quoted _ isQuote within ih =>
    rw [along_concat, along_append, ih]
    show (((⟨_, none⟩ : SelectorState).after _).along _).after _ = _
    rw [after_quote isQuote, along_inside within, after_closingQuote]
  | opening _ opens ih => rw [along_concat, ih, after_opening opens]
  | closing _ closes ih => rw [along_concat, ih, after_closing closes]

/-- What is known of a text from the state behind it. Inside of quotes, what stands before the
opening one leads outside. -/
def SelectorState.Describes (text : List Char) (state : SelectorState) : Prop :=
  match state with
  | ⟨depth, none⟩ => Leads depth text
  | ⟨depth, some quote⟩ => (quote = '"' ∨ quote = '\'') ∧
      ∃ front inside, text = front ++ quote :: inside ∧ Leads depth front ∧ quote ∉ inside

theorem describes_along (text : List Char) :
    (SelectorState.outside.along text).Describes text := by
  induction text using List.reverseRecOn with
  | nil => exact .nil
  | append_singleton text c ih =>
    rw [along_concat]
    generalize SelectorState.outside.along text = state at ih
    obtain ⟨depth, quote⟩ := state
    cases quote with
    | none =>
      have before : Leads depth text := ih
      rcases kinds c with isQuote | opens | closes | other
      · rw [after_quote isQuote]
        exact ⟨isQuote, text, [], rfl, before, List.not_mem_nil⟩
      · rw [after_opening opens]
        exact .opening before opens
      · rw [after_closing closes]
        exact .closing before closes
      · rw [after_plain other]
        exact .plain before other
    | some quote =>
      obtain ⟨isQuote, front, inside, rfl, before, within⟩ := ih
      by_cases same : c = quote
      · rw [same, after_closingQuote]
        exact .quoted before isQuote within
      · rw [after_inside same]
        refine ⟨isQuote, front, inside ++ [c], by simp, before, ?_⟩
        rw [List.mem_append, List.mem_singleton]
        exact not_or.2 ⟨within, Ne.symm same⟩

/-- A text leads outside of quotes to a depth where the state carried along it is there. -/
theorem leads_iff {depth : Nat} {text : List Char} :
    Leads depth text ↔ SelectorState.outside.along text = ⟨depth, none⟩ := by
  refine ⟨Leads.along, fun same => ?_⟩
  have described := describes_along text
  rw [same] at described
  exact described

/-! ## The pieces -/

/-- The pieces of a text between the commas outside of quotes, parentheses and brackets: put
together with commas they are the text, and exactly those commas stand between two of them. -/
structure Divides (text : List Char) (pieces : List (List Char)) : Prop where
  some : pieces ≠ []
  joined : [','].intercalate pieces = text
  cuts : ∀ front back, text = front ++ ',' :: back →
    (Leads 0 front ↔ ∃ before behind, before ≠ [] ∧ behind ≠ [] ∧ pieces = before ++ behind ∧
      [','].intercalate before = front)

theorem selectorPieces_ne_nil (state : SelectorState) (text : List Char) :
    selectorPieces state text ≠ [] := by
  cases text with
  | nil => exact List.cons_ne_nil _ _
  | cons c text =>
    rw [selectorPieces]
    split
    · exact List.cons_ne_nil _ _
    · exact consPiece_ne_nil c _

theorem intercalate_cons_of_ne_nil {piece : List Char} {pieces : List (List Char)}
    (some : pieces ≠ []) :
    [','].intercalate (piece :: pieces) = piece ++ ',' :: [','].intercalate pieces := by
  obtain ⟨next, rest, rfl⟩ := List.exists_cons_of_ne_nil some
  rw [List.intercalate_cons_cons, List.append_assoc, List.singleton_append]

theorem intercalate_cons_piece (c : Char) (piece : List Char) (rest : List (List Char)) :
    [','].intercalate ((c :: piece) :: rest) = c :: [','].intercalate (piece :: rest) := by
  cases rest with
  | nil => rfl
  | cons next rest => rfl

theorem length_le_intercalate (piece : List Char) (rest : List (List Char)) :
    piece.length ≤ ([','].intercalate (piece :: rest)).length := by
  cases rest with
  | nil => exact Nat.le_of_eq (congrArg List.length List.intercalate_singleton.symm)
  | cons next rest =>
    rw [intercalate_cons_of_ne_nil (List.cons_ne_nil _ _), List.length_append]
    exact Nat.le_add_right _ _

/-- The pieces put together are the text. -/
theorem intercalate_selectorPieces (state : SelectorState) (text : List Char) :
    [','].intercalate (selectorPieces state text) = text := by
  induction text generalizing state with
  | nil => rfl
  | cons c text ih =>
    rw [selectorPieces]
    split
    · next cut => rw [intercalate_cons_of_ne_nil (selectorPieces_ne_nil _ _), ih, cut.1]; rfl
    · obtain ⟨piece, rest, same⟩ :=
        List.exists_cons_of_ne_nil (selectorPieces_ne_nil (state.after c) text)
      rw [same, consPiece, intercalate_cons_piece, ← same, ih]

/-- Where a comma separates, the pieces on its sides are found apart from each other. -/
theorem selectorPieces_append {state : SelectorState} {front : List Char}
    (separates : state.along front = .outside) (back : List Char) :
    selectorPieces state (front ++ ',' :: back) =
      selectorPieces state front ++ selectorPieces .outside back := by
  induction front generalizing state with
  | nil =>
    obtain rfl : state = .outside := separates
    rfl
  | cons c front ih =>
    have behind : (state.after c).along front = .outside := separates
    rw [List.cons_append, selectorPieces, selectorPieces]
    split
    · next cut =>
      rw [cut.1, cut.2] at behind
      have pieces : selectorPieces .outside (front ++ ',' :: back) = _ := ih behind
      rw [cut.2, pieces]
      rfl
    · rw [ih behind, consPiece_append c (selectorPieces_ne_nil _ _)]

/-- Behind some of the pieces but not all of them, a comma separates. -/
theorem along_intercalate {state : SelectorState} {text : List Char}
    {before behind : List (List Char)} (some : before ≠ []) (more : behind ≠ [])
    (pieces : selectorPieces state text = before ++ behind) :
    state.along ([','].intercalate before) = .outside := by
  obtain ⟨first, before, rfl⟩ := List.exists_cons_of_ne_nil some
  induction text generalizing state first before with
  | nil =>
    obtain ⟨-, none⟩ := List.cons.inj pieces
    exact absurd (List.append_eq_nil_iff.1 none.symm).2 more
  | cons c text ih =>
    rw [selectorPieces] at pieces
    split at pieces
    · next cut =>
      obtain ⟨rfl, others⟩ := List.cons.inj pieces
      cases before with
      | nil => exact cut.2
      | cons next before =>
        rw [intercalate_cons_of_ne_nil (List.cons_ne_nil _ _)]
        show (state.after ',').along _ = _
        rw [cut.2] at others ⊢
        exact ih next before (List.cons_ne_nil _ _) others
    · obtain ⟨piece, rest, same⟩ :=
        List.exists_cons_of_ne_nil (selectorPieces_ne_nil (state.after c) text)
      rw [same, consPiece] at pieces
      obtain ⟨rfl, rfl⟩ := List.cons.inj pieces
      rw [intercalate_cons_piece]
      exact ih piece before (List.cons_ne_nil _ _) same

theorem divides_selectorPieces (text : List Char) :
    Divides text (selectorPieces .outside text) where
  some := selectorPieces_ne_nil _ _
  joined := intercalate_selectorPieces _ _
  cuts front back split := by
    rw [leads_iff]
    constructor
    · intro separates
      refine ⟨_, _, selectorPieces_ne_nil .outside front, selectorPieces_ne_nil .outside back, ?_,
        intercalate_selectorPieces _ _⟩
      rw [split, selectorPieces_append separates]
    · rintro ⟨before, behind, some, more, pieces, rfl⟩
      exact along_intercalate some more pieces

/-! ## Selectors -/

/-- No comma of the text separates. -/
def Uncut (text : List Char) : Prop := ∀ front back, text = front ++ ',' :: back → ¬ Leads 0 front

theorem Uncut.selectorPieces {text : List Char} (h : Uncut text) :
    selectorPieces .outside text = [text] := by
  have joined := intercalate_selectorPieces .outside text
  obtain ⟨piece, rest, same⟩ := List.exists_cons_of_ne_nil (selectorPieces_ne_nil .outside text)
  rw [same] at joined
  cases rest with
  | nil =>
    rw [List.intercalate_singleton] at joined
    rw [same, joined]
  | cons next rest =>
    rw [intercalate_cons_of_ne_nil (List.cons_ne_nil _ _)] at joined
    have separates := (divides_selectorPieces text).cuts _ _ joined.symm
    refine absurd (separates.2 ⟨[piece], _, List.cons_ne_nil _ _, List.cons_ne_nil next rest, same,
      List.intercalate_singleton⟩) (h _ _ joined.symm)

/-- No comma of a text separates, or there is a first one that does. -/
theorem uncut_or_exists (text : List Char) : Uncut text ∨ ∃ piece rest,
    text = piece ++ ',' :: rest ∧ Uncut piece ∧ Leads 0 piece := by
  have divides := divides_selectorPieces text
  obtain ⟨piece, rest, same⟩ := List.exists_cons_of_ne_nil (selectorPieces_ne_nil .outside text)
  rw [same] at divides
  cases rest with
  | nil =>
    refine .inl fun front back split leads => ?_
    obtain ⟨before, behind, some, more, one, -⟩ := (divides.cuts front back split).1 leads
    have := List.length_pos_iff.2 some
    have := List.length_pos_iff.2 more
    have := congrArg List.length one
    simp only [List.length_singleton, List.length_append] at this
    omega
  | cons next rest =>
    have joined := divides.joined
    rw [intercalate_cons_of_ne_nil (List.cons_ne_nil _ _)] at joined
    refine .inr ⟨piece, _, joined.symm, ?_, ?_⟩
    · rintro front back rfl leads
      have split : text = front ++ ',' :: (back ++ ',' :: [','].intercalate (next :: rest)) := by
        rw [← joined, List.append_assoc, List.cons_append]
      obtain ⟨before, behind, some, more, pieces, within⟩ := (divides.cuts _ _ split).1 leads
      obtain ⟨first, before, rfl⟩ := List.exists_cons_of_ne_nil some
      obtain ⟨rfl, -⟩ := List.cons.inj pieces
      have longer : (front ++ ',' :: back).length ≤ front.length := by
        conv_rhs => rw [← within]
        exact length_le_intercalate _ before
      simp only [List.length_append, List.length_cons] at longer
      omega
    · exact (divides.cuts _ _ joined.symm).2 ⟨[piece], _, List.cons_ne_nil _ _,
        List.cons_ne_nil next rest, rfl, List.intercalate_singleton⟩

/-! ## Trimming -/

/-- The blanks that trimming takes off both ends. -/
theorem exists_trim (text : List Char) : ∃ front back, text = front ++ trim text ++ back ∧
    (∀ c ∈ front, isBlank c = true) ∧ ∀ c ∈ back, isBlank c = true := by
  refine ⟨text.takeWhile isBlank, ((text.dropWhile isBlank).reverse.takeWhile isBlank).reverse,
    ?_, fun c hc => List.mem_takeWhile_imp hc,
    fun c hc => List.mem_takeWhile_imp (List.mem_reverse.1 hc)⟩
  have back := congrArg List.reverse
    (List.takeWhile_append_dropWhile (p := isBlank) (l := (text.dropWhile isBlank).reverse))
  rw [List.reverse_append, List.reverse_reverse] at back
  rw [List.append_assoc, trim, trimRight, back, List.takeWhile_append_dropWhile]

/-- A blank leads nowhere. -/
theorem leads_blank {depth : Nat} {text : List Char} {c : Char} (blank : isBlank c = true)
    (h : Leads depth (text ++ [c])) : Leads depth text := by
  have last {front text : List Char} {d : Char} (same : front ++ [d] = text ++ [c]) :
      front = text ∧ d = c := by
    obtain ⟨rfl, one⟩ := List.append_inj' same rfl
    exact ⟨rfl, (List.cons.inj one).1⟩
  have solid (d : Char) (mark : isBlank d = false) : d ≠ c := by
    rintro rfl
    rw [blank] at mark
    cases mark
  generalize whole : text ++ [c] = other at h
  cases h with
  | nil => exact absurd whole (by simp)
  | plain before =>
    obtain ⟨rfl, -⟩ := last whole.symm
    exact before
  | quoted _ isQuote =>
    obtain ⟨-, same⟩ := last whole.symm
    rcases isQuote with rfl | rfl <;> exact absurd same (solid _ (by decide))
  | opening _ opens =>
    obtain ⟨-, same⟩ := last whole.symm
    rcases opens with rfl | rfl <;> exact absurd same (solid _ (by decide))
  | closing _ closes =>
    obtain ⟨-, same⟩ := last whole.symm
    rcases closes with rfl | rfl <;> exact absurd same (solid _ (by decide))

theorem leads_blanks {depth : Nat} {text back : List Char}
    (blank : ∀ c ∈ back, isBlank c = true) (h : Leads depth (text ++ back)) :
    Leads depth text := by
  induction back using List.reverseRecOn with
  | nil => rwa [List.append_nil] at h
  | append_singleton back c ih =>
    rw [← List.append_assoc] at h
    exact ih (fun d hd => blank d (List.mem_append_left _ hd))
      (leads_blank (blank c (by simp)) h)

/-- Blanks in front lead nowhere. -/
theorem along_blanks {front : List Char} (blank : ∀ c ∈ front, isBlank c = true) :
    SelectorState.outside.along front = .outside := by
  induction front with
  | nil => rfl
  | cons c front ih =>
    obtain ⟨here, more⟩ := List.forall_mem_cons.1 blank
    show (SelectorState.outside.after c).along front = _
    rw [after_outside_of_isBlank here, ih more]

theorem leads_behind_blanks {depth : Nat} {front text : List Char}
    (blank : ∀ c ∈ front, isBlank c = true) : Leads depth (front ++ text) ↔ Leads depth text := by
  rw [leads_iff, leads_iff, along_append, along_blanks blank]

theorem Leads.trimmed {depth : Nat} {text : List Char} (h : Leads depth text) :
    Leads depth (trim text) := by
  obtain ⟨front, back, split, before, behind⟩ := exists_trim text
  rw [split] at h
  exact (leads_behind_blanks before).1 (leads_blanks behind h)

theorem Uncut.trimmed {text : List Char} (h : Uncut text) : Uncut (trim text) := by
  obtain ⟨front, back, split, before, -⟩ := exists_trim text
  intro left right same leads
  refine h (front ++ left) (right ++ back) ?_ ((leads_behind_blanks before).2 leads)
  rw [same] at split
  rw [split]
  simp

/-! ## Stability -/

theorem splitSelectors_append {front : List Char} (separates : Leads 0 front)
    (back : List Char) :
    splitSelectors (front ++ ',' :: back) = splitSelectors front ++ splitSelectors back := by
  unfold splitSelectors
  rw [selectorPieces_append separates.along, List.map_append, List.filter_append]

theorem splitSelectors_blank {c : Char} (blank : isBlank c = true) (text : List Char) :
    splitSelectors (c :: text) = splitSelectors text := by
  have comma : ¬ (c = ',' ∧ SelectorState.outside = .outside) := by
    rintro ⟨rfl, -⟩
    revert blank
    decide
  have trimmed (piece : List Char) : trim (c :: piece) = trim piece := by
    rw [trim, List.dropWhile_cons_of_pos blank, trim]
  obtain ⟨piece, rest, same⟩ := List.exists_cons_of_ne_nil (selectorPieces_ne_nil .outside text)
  unfold splitSelectors
  rw [selectorPieces, if_neg comma, after_outside_of_isBlank blank, same, consPiece, List.map_cons,
    List.map_cons, trimmed]

/-- A selector as lists are cut into: no comma of it separates, no blank stands at its ends, and
it is not empty. -/
structure IsSelector (text : List Char) : Prop where
  uncut : Uncut text
  trimmed : trim text = text
  some : text ≠ []

theorem IsSelector.splitSelectors {text : List Char} (h : IsSelector text) :
    splitSelectors text = [text] := by
  rw [StylusToScss.splitSelectors, h.uncut.selectorPieces, List.map_singleton, h.trimmed]
  simp [h.some]

/-- A text that no comma separates has one selector or none. -/
theorem Uncut.splitSelectors {text : List Char} (h : Uncut text) :
    splitSelectors text = [] ∨ splitSelectors text = [trim text] ∧ IsSelector (trim text) := by
  rw [StylusToScss.splitSelectors, h.selectorPieces, List.map_singleton]
  by_cases none : trim text = []
  · exact .inl (by simp [none])
  · exact .inr ⟨by simp [none], h.trimmed, trim_trim text, none⟩

/-- Selectors that a comma separates behind each but the last. -/
inductive Separable : List (List Char) → Prop
  | nil : Separable []
  | last {selector : List Char} (whole : IsSelector selector) : Separable [selector]
  | cons {selector : List Char} {rest : List (List Char)} (whole : IsSelector selector)
      (separates : Leads 0 selector) (more : Separable rest) : Separable (selector :: rest)

namespace Separable

variable {selectors : List (List Char)}

theorem isSelector (h : Separable selectors) : ∀ selector ∈ selectors, IsSelector selector := by
  induction h with
  | nil => exact List.forall_mem_nil _
  | last whole => exact List.forall_mem_singleton.2 whole
  | cons whole _ _ ih => exact List.forall_mem_cons.2 ⟨whole, ih⟩

/-- Selectors put together again are cut into themselves. -/
theorem splitSelectors_intercalate (h : Separable selectors) :
    splitSelectors ([',', ' '].intercalate selectors) = selectors := by
  induction h with
  | nil => rfl
  | last whole => rw [List.intercalate_singleton, whole.splitSelectors]
  | @cons selector rest whole separates more ih =>
    cases rest with
    | nil => rw [List.intercalate_singleton, whole.splitSelectors]
    | cons next rest =>
      have joined : [',', ' '].intercalate (selector :: next :: rest) =
          selector ++ ',' :: ' ' :: [',', ' '].intercalate (next :: rest) := by
        rw [List.intercalate_cons_cons, List.append_assoc]
        rfl
      rw [joined, splitSelectors_append separates, whole.splitSelectors,
        splitSelectors_blank (by decide), ih, List.singleton_append]

end Separable

/-- The selectors of a text are separable. The induction is on the text behind the first comma that
separates. -/
theorem separable_splitSelectors (text : List Char) : Separable (splitSelectors text) := by
  rcases uncut_or_exists text with uncut | ⟨piece, rest, split, uncut, separates⟩
  · rcases uncut.splitSelectors with none | ⟨one, whole⟩
    · rw [none]
      exact .nil
    · rw [one]
      exact .last whole
  · have := congrArg List.length split
    simp only [List.length_append, List.length_cons] at this
    have more := separable_splitSelectors rest
    rw [split, splitSelectors_append separates]
    rcases uncut.splitSelectors with none | ⟨one, whole⟩
    · rwa [none]
    · rw [one]
      exact .cons whole separates.trimmed more
termination_by text.length

/-- The selectors of a text are the pieces between the commas outside of quotes, parentheses and
brackets that are not blank, trimmed. Cutting one of them again gives it back, and so does cutting
all of them put together. -/
theorem splitSelectors_stable (text : List Char) :
    (∃ pieces, Divides text pieces ∧ splitSelectors text =
      (pieces.filter fun piece => piece.any fun c => !isBlank c).map trim) ∧
    (∀ selector ∈ splitSelectors text, splitSelectors selector = [selector]) ∧
    splitSelectors ([',', ' '].intercalate (splitSelectors text)) = splitSelectors text := by
  have separable := separable_splitSelectors text
  refine ⟨⟨_, divides_selectorPieces text, ?_⟩,
    fun selector mem => (separable.isSelector selector mem).splitSelectors,
    separable.splitSelectors_intercalate⟩
  have blank (piece : List Char) :
      decide (trim piece ≠ []) = piece.any fun c => !isBlank c := by
    rw [Bool.eq_iff_iff, decide_eq_true_iff, Ne, trim_eq_nil_iff, List.any_eq_true]
    simp
  rw [splitSelectors, List.filter_map]
  congr 1
  exact List.filter_congr fun piece _ => blank piece

/-- A comma in parentheses and one in quotes, a blank piece, a bracket that closes nothing, and a
quote that is left open. -/
example : splitSelectors "a:not(b, c) ,, d[e=',']],f '".toList =
    ["a:not(b, c)".toList, "d[e=',']]".toList, "f '".toList] := by
  decide +kernel

end StylusToScss
