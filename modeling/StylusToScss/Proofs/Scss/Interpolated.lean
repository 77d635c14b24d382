import Mathlib.Data.List.Chain
import StylusToScss.Proofs.Interpolation
import StylusToScss.Proofs.Scss.Discipline

/-!
# Interpolated text

What the text of a selector or of a property name becomes. `Interpolates` says it without segments:
the text goes on as it is, but for each pair of braces, which becomes an interpolated variable.
`Misbraced` says where this is not possible: at a brace that nothing closes, and at one that is
closed behind nothing but blanks. Every text is one or the other, and cutting it into segments and
rendering these comes to the same (`splitSegments_interpolated`), in whatever state the emitter is.
-/

namespace StylusToScss

open Text

/-! ## What a text becomes -/

/-- The text as it is written, with a variable for the name in each pair of braces. A brace is
closed by the first closing one behind it. -/
inductive Interpolates : List Char → List Char → Prop
  | plain {text : List Char} (none : '\x7b' ∉ text) : Interpolates text text
  | name {front inside behind written : List Char} (before : '\x7b' ∉ front)
      (closed : '\x7d' ∉ inside) (named : ∃ c ∈ inside, isBlank c = false)
      (more : Interpolates behind written) :
      Interpolates (front ++ '\x7b' :: (inside ++ '\x7d' :: behind))
        (front ++ ('#' :: '\x7b' :: '$' :: (trim inside).dropWhile (· == '$')) ++
          '\x7d' :: written)

/-- Read from the left, the text comes to a brace that gives this cause to fail: nothing closes it,
or only blanks stand in it. -/
inductive Misbraced : (String → ParseFault) → List Char → Prop
  | unterminated {front inside : List Char} (before : '\x7b' ∉ front)
      (unclosed : '\x7d' ∉ inside) :
      Misbraced .unterminatedInterpolation (front ++ '\x7b' :: inside)
  | empty {front inside behind : List Char} (before : '\x7b' ∉ front)
      (closed : '\x7d' ∉ inside) (blank : ∀ c ∈ inside, isBlank c = true) :
      Misbraced .emptyInterpolation (front ++ '\x7b' :: (inside ++ '\x7d' :: behind))
  | behind {cause : String → ParseFault} {front inside behind : List Char}
      (before : '\x7b' ∉ front) (closed : '\x7d' ∉ inside)
      (named : ∃ c ∈ inside, isBlank c = false) (more : Misbraced cause behind) :
      Misbraced cause (front ++ '\x7b' :: (inside ++ '\x7d' :: behind))

/-- A text either becomes another one or comes to a brace that fails. The induction is on the text
behind a pair of braces. -/
theorem interpolates_or_misbraced (text : List Char) :
    (∃ written, Interpolates text written) ∨ ∃ cause, Misbraced cause text := by
  by_cases brace : '\x7b' ∈ text
  · obtain ⟨front, more, rfl, before⟩ := List.eq_append_cons_of_mem brace
    by_cases closes : '\x7d' ∈ more
    · obtain ⟨inside, behind, rfl, closed⟩ := List.eq_append_cons_of_mem closes
      by_cases named : ∃ c ∈ inside, isBlank c = false
      · rcases interpolates_or_misbraced behind with ⟨written, more⟩ | ⟨cause, more⟩
        · exact .inl ⟨_, .name before closed named more⟩
        · exact .inr ⟨cause, .behind before closed named more⟩
      · refine .inr ⟨_, .empty before closed fun c hc => ?_⟩
        exact Bool.of_not_eq_false fun solid => named ⟨c, hc, solid⟩
    · exact .inr ⟨_, .unterminated before closes⟩
  · exact .inl ⟨text, .plain brace⟩
termination_by text.length
decreasing_by
  subst_vars
  simp only [List.length_append, List.length_cons]
  omega

/-! ## Segments -/

/-- Segments that a text is cut into: literals that are not empty and hold no opening brace, no two
of them next to each other, and trimmed names. -/
structure Segmented (line : Nat) (segments : List Node) : Prop where
  each : ∀ segment ∈ segments,
    (∃ text, segment = .plain text line ∧ text ≠ "" ∧ '\x7b' ∉ text.toList) ∨
      ∃ name, segment = .ident name true false line ∧ name ≠ "" ∧ trim name.toList = name.toList
  apart : segments.IsChain fun a b => ¬ (a.kind = "Literal" ∧ b.kind = "Literal")

/-- In every state, the segments are rendered as this text, and the state stays. -/
def RenderedAs (segments : List Node) (text : List Char) : Prop :=
  ∀ emitter, (Emit.segments segments).runFrom emitter = (.ok (String.ofList text), emitter)

theorem intercalate_empty_cons (first : String) (texts : List String) :
    "".intercalate (first :: texts) = first ++ "".intercalate texts := by
  cases texts with
  | nil => rw [String.intercalate_singleton, String.intercalate_nil, String.append_empty]
  | cons next rest => rw [String.intercalate_cons_cons, String.append_empty]

namespace RenderedAs

variable {segments : List Node} {text : List Char}

theorem nil : RenderedAs [] [] := fun _ => rfl

/-- Rendering goes segment by segment. -/
theorem cons {segment : Node} {first : List Char}
    (here : ∀ emitter, (Emit.value segment).runFrom emitter =
      (.ok (String.ofList first), emitter))
    (more : RenderedAs segments text) : RenderedAs (segment :: segments) (first ++ text) := by
  intro emitter
  have rest := more emitter
  unfold Emit.segments at rest ⊢
  rw [Emit.runFrom_bind] at rest ⊢
  rw [Emit.values, Emit.runFrom_bind, here emitter]
  simp only
  rw [Emit.runFrom_bind]
  generalize (Emit.values segments).runFrom emitter = outcome at rest ⊢
  obtain ⟨e | texts, after⟩ := outcome
  · cases rest
  · obtain ⟨joined, rfl⟩ := Prod.mk.inj rest
    show (Except.ok ("".intercalate (String.ofList first :: texts)), after) = _
    rw [intercalate_empty_cons, String.ofList_append, ← Except.ok.inj joined]

/-- Literal text in front of segments stays as it is. -/
theorem literal (more : RenderedAs segments text) (front : List Char) (line : Nat) :
    RenderedAs (literalSegment front line ++ segments) (front ++ text) := by
  unfold literalSegment
  split
  · next none =>
    rw [none]
    exact more
  · exact more.cons fun _ => rfl

/-- A name becomes a variable in braces, whether or not it starts with dollar signs and whatever is
known of it. -/
theorem name (more : RenderedAs segments text) (name : List Char) (line : Nat) :
    RenderedAs (.ident (String.ofList name) true false line :: segments)
      (('#' :: '\x7b' :: '$' :: name.dropWhile (· == '$')) ++ '\x7d' :: text) := by
  rw [List.append_cons]
  refine more.cons fun emitter => ?_
  rw [Emit.runFrom_value]
  show (Except.ok ("#\x7b" ++ ("$" ++ String.ofList ((String.ofList name).toList.dropWhile
    (· == '$'))) ++ "\x7d"), emitter) = _
  rw [String.toList_ofList, ← String.ofList_toList (s := "#\x7b"),
    ← String.ofList_toList (s := "$"), ← String.ofList_toList (s := "\x7d"),
    ← String.ofList_append, ← String.ofList_append, ← String.ofList_append]
  rfl

/-- Segments are rendered in one way only. -/
theorem unique {other : List Char} (h : RenderedAs segments text)
    (h' : RenderedAs segments other) : text = other := by
  have same := (h (.start .strict)).symm.trans (h' (.start .strict))
  exact String.ofList_injective (Except.ok.inj (Prod.mk.inj same).1)

end RenderedAs

namespace Segmented

variable {line : Nat} {segments : List Node}

theorem literal {text : List Char} (outside : '\x7b' ∉ text) :
    Segmented line (literalSegment text line) := by
  unfold literalSegment
  split
  · exact ⟨nofun, .nil⟩
  · next some =>
    refine ⟨fun segment mem => .inl ⟨_, List.mem_singleton.1 mem, ?_, ?_⟩, .singleton _⟩
    · exact fun none => some (String.ofList_eq_empty_iff.1 none)
    · rwa [String.toList_ofList]

/-- A name separates the literals around it. -/
theorem name {front name : List Char} (outside : '\x7b' ∉ front) (named : name ≠ [])
    (trimmed : trim name = name) (more : Segmented line segments) :
    Segmented line
      (literalSegment front line ++ .ident (String.ofList name) true false line :: segments) := by
  constructor
  · intro segment mem
    rcases List.mem_append.1 mem with mem | mem
    · exact (literal outside).each segment mem
    · rcases List.mem_cons.1 mem with rfl | mem
      · refine .inr ⟨_, rfl, fun none => named (String.ofList_eq_empty_iff.1 none), ?_⟩
        rw [String.toList_ofList, trimmed]
      · exact more.each segment mem
  · have other : "Ident" ≠ "Literal" := by decide
    refine (literal outside).apart.append (more.apart.cons fun b _ => ?_) fun a _ b hb => ?_
    · exact fun both => other both.1
    · obtain rfl := Option.some.inj hb
      exact fun both => other both.2

end Segmented

/-! ## Cutting -/

section
variable {c : Char} {front behind : List Char}

theorem dropWhile_until (before : c ∉ front) :
    (front ++ c :: behind).dropWhile (· != c) = c :: behind := by
  rw [List.dropWhile_append_of_pos fun d hd => bne_iff_ne.2 (ne_of_mem_of_not_mem hd before),
    List.dropWhile_cons_of_neg (by rw [bne_self_eq_false]; exact Bool.false_ne_true)]

theorem takeWhile_until (before : c ∉ front) :
    (front ++ c :: behind).takeWhile (· != c) = front := by
  rw [List.takeWhile_append_of_pos fun d hd => bne_iff_ne.2 (ne_of_mem_of_not_mem hd before),
    List.takeWhile_cons_of_neg (by rw [bne_self_eq_false]; exact Bool.false_ne_true),
    List.append_nil]

theorem dropWhile_without (none : c ∉ front) : front.dropWhile (· != c) = [] :=
  List.dropWhile_eq_nil_iff.2 fun _ hd => bne_iff_ne.2 (ne_of_mem_of_not_mem hd none)

end

section
variable {whole front inside behind : List Char} {line : Nat}

theorem segmentsFrom_plain (none : '\x7b' ∉ front) :
    segmentsFrom whole line front = .ok (literalSegment front line) := by
  rw [segmentsFrom]
  split
  · rfl
  · next some =>
    rw [dropWhile_without none] at some
    cases some

theorem segmentsFrom_unclosed (before : '\x7b' ∉ front) (unclosed : '\x7d' ∉ inside) :
    segmentsFrom whole line (front ++ '\x7b' :: inside) =
      .error (.unterminatedInterpolation (String.ofList whole)) := by
  rw [segmentsFrom]
  split
  · next none =>
    rw [dropWhile_until before] at none
    cases none
  · next some =>
    rw [dropWhile_until before] at some
    obtain ⟨-, rfl⟩ := List.cons.inj some
    split
    · rfl
    · next closing =>
      rw [dropWhile_without unclosed] at closing
      cases closing

/-- A pair of braces, with what is behind it. -/
theorem segmentsFrom_closed (before : '\x7b' ∉ front) (closed : '\x7d' ∉ inside) :
    segmentsFrom whole line (front ++ '\x7b' :: (inside ++ '\x7d' :: behind)) =
      if trim inside = [] then .error (.emptyInterpolation (String.ofList whole))
      else do
        let more ← segmentsFrom whole line behind
        return literalSegment front line ++
          .ident (String.ofList (trim inside)) true false line :: more := by
  rw [segmentsFrom]
  split
  · next none =>
    rw [dropWhile_until before] at none
    cases none
  · next some =>
    rw [dropWhile_until before] at some
    obtain ⟨-, rfl⟩ := List.cons.inj some
    split
    · next none =>
      rw [dropWhile_until closed] at none
      cases none
    · next closing =>
      rw [dropWhile_until closed] at closing
      obtain ⟨-, rfl⟩ := List.cons.inj closing
      rw [takeWhile_until closed, takeWhile_until before]

theorem trim_ne_nil (named : ∃ c ∈ inside, isBlank c = false) : trim inside ≠ [] := by
  obtain ⟨c, mem, solid⟩ := named
  exact List.ne_nil_of_mem (mem_trim mem solid)

end

/-- A brace that fails is what cutting fails with. -/
theorem Misbraced.segmentsFrom {cause : String → ParseFault} {text : List Char}
    (h : Misbraced cause text) (whole : List Char) (line : Nat) :
    segmentsFrom whole line text = .error (cause (String.ofList whole)) := by
  induction h with
  | unterminated before unclosed => exact segmentsFrom_unclosed before unclosed
  | empty before closed blank =>
    rw [segmentsFrom_closed before closed, if_pos (trim_eq_nil_iff.2 blank)]
  | behind before closed named _ ih =>
    rw [segmentsFrom_closed before closed, if_neg (trim_ne_nil named), ih]
    rfl

/-- A text that becomes another one is cut into segments that are rendered as that. -/
theorem Interpolates.segmentsFrom {text written : List Char} (h : Interpolates text written)
    (whole : List Char) (line : Nat) :
    ∃ segments, segmentsFrom whole line text = .ok segments ∧ Segmented line segments ∧
      RenderedAs segments written := by
  induction h with
  | @plain text none =>
    refine ⟨_, segmentsFrom_plain none, .literal none, ?_⟩
    have rendered := RenderedAs.nil.literal text line
    rwa [List.append_nil, List.append_nil] at rendered
  | @name front inside _ _ before closed named _ ih =>
    obtain ⟨segments, cut, segmented, rendered⟩ := ih
    have some := trim_ne_nil named
    refine ⟨_, ?_, segmented.name before some (trim_trim inside), ?_⟩
    · rw [segmentsFrom_closed before closed, if_neg some, cut]
      rfl
    · rw [List.append_assoc]
      exact (rendered.name (trim inside) line).literal front line

/-- What a text becomes, from its source to its output. Cutting it into segments fails exactly if a
brace does, with the cause the first such brace gives, and shows the text. Otherwise the segments
are literals and names in turn, and whatever names the emitter knows, it renders them as the one
text that this text becomes. -/
theorem splitSegments_interpolated (text : List Char) (line column : Nat) :
    (∀ fault, splitSegments text line column = .error fault ↔
      ∃ cause, Misbraced cause text ∧ fault = ⟨cause (String.ofList text), line, column⟩) ∧
    ((∃ cause, Misbraced cause text) ∨ ∃ segments written,
      splitSegments text line column = .ok segments ∧ Segmented line segments ∧
      (∀ other, Interpolates text other ↔ other = written) ∧ RenderedAs segments written) := by
  have cuts {written : List Char} (h : Interpolates text written) : ∃ segments,
      splitSegments text line column = .ok segments ∧ Segmented line segments ∧
        RenderedAs segments written := by
    obtain ⟨segments, cut, segmented, rendered⟩ := h.segmentsFrom text line
    exact ⟨segments, by rw [splitSegments, cut], segmented, rendered⟩
  have fails {cause : String → ParseFault} (h : Misbraced cause text) :
      splitSegments text line column = .error ⟨cause (String.ofList text), line, column⟩ := by
    rw [splitSegments, h.segmentsFrom text line]
  constructor
  · intro fault
    constructor
    · intro error
      rcases interpolates_or_misbraced text with ⟨written, h⟩ | ⟨cause, h⟩
      · obtain ⟨segments, cut, -⟩ := cuts h
        rw [cut] at error
        cases error
      · rw [fails h] at error
        exact ⟨cause, h, (Except.error.inj error).symm⟩
    · rintro ⟨cause, h, rfl⟩
      exact fails h
  · rcases interpolates_or_misbraced text with ⟨written, h⟩ | misbraced
    · obtain ⟨segments, cut, segmented, rendered⟩ := cuts h
      refine .inr ⟨segments, written, cut, segmented, fun other => ⟨fun h' => ?_, ?_⟩, rendered⟩
      · obtain ⟨others, cut', -, rendered'⟩ := cuts h'
        rw [cut] at cut'
        cases cut'
        exact rendered'.unique rendered
      · rintro rfl
        exact h
    · exact .inl misbraced

/-- Blanks around a name and dollar signs in front of it are not kept. -/
example : splitSegments ".icon-\x7b $name \x7d:hover".toList 3 1 =
    .ok [.plain ".icon-" 3, .ident "$name" true false 3, .plain ":hover" 3] := by cbv

end StylusToScss
