import StylusToScss.Proofs.Scss.Shape
import StylusToScss.Proofs.Statement.Reading

/-!
# What a conversion comes to

Converting a source gives a stylesheet or one of the declared failures; nothing on the way is asked
for that is not there (`convert_declared`). A tree that is read can also be written, as far as its
constructs have counterparts, with one exception: a group whose selectors are all blank
(`convert_malformed`).
-/

namespace StylusToScss

/-! ## Declared failures -/

/-- The failure is one that a conversion declares. -/
def ConversionError.Declared : ConversionError → Prop
  | .parse fault => fault.Declared
  | _ => True

/-- What cutting tokens relies on where a scan stands: the place is one of the source, the character
before the end of a line break can be sliced from it, and no step stands still. -/
structure Scan.Safe (source : String) (scan : Scan) : Prop where
  place : ∃ passed, scan.cursor.Place source.toList passed
  lineBreak : StylusToScss.lineBreak scan.cursor.rest ≠ 0 →
    let stop := (scan.cursor.along (StylusToScss.lineBreak scan.cursor.rest)).offset
    1 ≤ stop ∧ (slice? source (stop - 1) stop).isSome
  moves : ∀ tokens next, Scan.Step scan tokens next → next.size < scan.size

theorem Scan.Reached.safe {source : String} {before : List Token} {scan : Scan}
    (h : Scan.Reached source.toList before scan) : scan.Safe source := by
  obtain ⟨passed, place⟩ := h.place
  refine ⟨⟨passed, place⟩, fun breaks => ?_, fun tokens next step => step.size_lt⟩
  obtain ⟨front, c, taken, width⟩ := take_lineBreak breaks
  have stop : (scan.cursor.along (StylusToScss.lineBreak scan.cursor.rest)).offset =
      byteLength (passed ++ front) + byteLength [c] := by
    rw [Cursor.offset_along, taken, place.offset, byteLength_append, byteLength_append,
      Nat.add_assoc]
  have split := place.split
  rw [← List.take_append_drop (StylusToScss.lineBreak scan.cursor.rest) scan.cursor.rest, taken,
    ← List.append_assoc, ← List.append_assoc] at split
  have slice := slice?_eq_some split
  simp only
  rw [stop, width] at *
  refine ⟨Nat.le_add_left _ _, ?_⟩
  rw [Nat.add_sub_cancel]
  exact Option.isSome_of_eq_some slice

theorem ConversionError.Foreseen.declared {may : Leeway} {e : ConversionError}
    (h : e.Foreseen may) : e.Declared := by
  cases e with
  | parse fault => exact h.elim
  | unsupported | malformed | unknownDialect => trivial

/-- What stands in the way of a tree without unsupported values are unsupported statements, and
groups without selectors where they may be. -/
theorem foreseen_obstacles_of_areStatements {sheet : Stylesheet} {may : Leeway}
    (unsupported : ¬ may.unsupported) (h : AreStatements may sheet.nodes) (policy : Policy) :
    ∀ o ∈ sheet.obstacles policy, o.Foreseen may :=
  foreseen_of_areStatements (fun allowed => absurd allowed unsupported) sheet.nodes h

/-- What is read from a source has the shape of a stylesheet, in which groups without selectors may
stand. -/
theorem statements_of_ofSource (source : String) :
    Yields (AreStatements ⟨False, True⟩ ·.nodes) Located.Declared (Stylesheet.ofSource source) :=
  Stylesheet.yields_ofSource fun not => absurd trivial not

/-- Every conversion comes to a stylesheet or to a declared failure: no part of a line, no slice of
the source and no value of a property is asked for that is not there, and cutting tokens and reading
statements and operands each move on. -/
theorem convert_declared (options : Options) (source : String) :
    ((∃ converted, convert options source = .ok converted) ∨
      ∃ e, convert options source = .error e ∧ e.Declared) ∧
    (∀ before scan, Scan.Reached source.toList before scan → scan.Safe source) ∧
    (∀ first rest statement, readStatement source first rest = .ok statement →
      statement.rest.length < (first :: rest).length) ∧
    (∀ site least tokens operand, readBinary site least tokens = .ok operand →
      operand.rest.length < tokens.length) ∧
    ∀ (names : Names) property i, names.properties.finIdxOf? property = some i →
      i < names.values.length := by
  refine ⟨?_, ?_, ?_, ?_, ?_⟩
  · have read := statements_of_ofSource source
    unfold convert
    cases sheet : Stylesheet.ofSource source with
    | error fault => exact .inr ⟨_, rfl, read.of_eq_error sheet⟩
    | ok sheet' =>
      cases written : sheet'.convert options with
      | ok converted => exact .inl ⟨converted, written⟩
      | error e =>
        have first := (sheet'.fails_convert options).eq_error_iff.1 written
        have foreseen := foreseen_obstacles_of_areStatements id (read.of_eq_ok sheet)
          options.policy e (List.mem_of_head? first)
        exact .inr ⟨e, written, foreseen.declared⟩
  · intro before scan reached
    exact reached.safe
  · intro first rest statement _
    exact Nat.lt_succ_of_le statement.rest_le
  · intro site least tokens operand _
    exact operand.rest_lt
  · intro names property i _
    rw [← names.length_properties]
    exact i.isLt

/-! ## Malformed trees -/

/-- A conversion fails for the shape of the tree exactly where a group without selectors is the
first thing in the tree that stands in the way. -/
theorem convert_eq_malformed_iff {options : Options} {source : String} {shape : ShapeFault}
    {line : Nat} : convert options source = .error (.malformed shape line) ↔
      shape = .groupWithoutSelectors ∧ ∃ sheet, Stylesheet.ofSource source = .ok sheet ∧
        (sheet.obstacles options.policy).head? = some (.malformed shape line) := by
  have read := statements_of_ofSource source
  unfold convert
  cases sheet : Stylesheet.ofSource source with
  | error fault =>
    refine ⟨nofun, ?_⟩
    rintro ⟨-, _, same, -⟩
    cases same
  | ok sheet' =>
    show sheet'.convert options = _ ↔ _
    rw [(sheet'.fails_convert options).eq_error_iff]
    constructor
    · intro first
      have foreseen := foreseen_obstacles_of_areStatements id (read.of_eq_ok sheet)
        options.policy _ (List.mem_of_head? first)
      cases shape with
      | groupWithoutSelectors => exact ⟨rfl, sheet', rfl, first⟩
      | _ => exact foreseen.elim
    · rintro ⟨-, _, same, first⟩
      cases same
      exact first

/-- What is read from a source has the shape of a stylesheet, but for groups without selectors; a
conversion finds fault with the shape exactly where such a group is the first thing in its way; and
there is no such group where no symbol of the source is a blank character. -/
theorem convert_malformed (source : String) :
    (∀ sheet, Stylesheet.ofSource source = .ok sheet → AreStatements ⟨False, True⟩ sheet.nodes) ∧
    (∀ options shape line, convert options source = .error (.malformed shape line) ↔
      shape = .groupWithoutSelectors ∧ ∃ sheet, Stylesheet.ofSource source = .ok sheet ∧
        (sheet.obstacles options.policy).head? = some (.malformed shape line)) ∧
    ((∀ tokens, tokenize source = .ok tokens → ∀ token ∈ tokens, ∀ c, token.kind = .symbol c →
        Text.isBlank c = false) →
      (∀ sheet, Stylesheet.ofSource source = .ok sheet →
        AreStatements ⟨False, False⟩ sheet.nodes) ∧
      ∀ options shape line, convert options source ≠ .error (.malformed shape line)) := by
  refine ⟨?_, fun options shape line => convert_eq_malformed_iff, ?_⟩
  · intro sheet h
    exact (statements_of_ofSource source).of_eq_ok h
  intro solid
  have read : Yields (AreStatements ⟨False, False⟩ ·.nodes) Located.Declared
      (Stylesheet.ofSource source) := Stylesheet.yields_ofSource fun _ => solid
  refine ⟨fun sheet h => read.of_eq_ok h, ?_⟩
  intro options shape line h
  obtain ⟨rfl, sheet, same, first⟩ := convert_eq_malformed_iff.1 h
  exact foreseen_obstacles_of_areStatements id (read.of_eq_ok same) options.policy _
    (List.mem_of_head? first)

/-- The first line holds a no-break space and nothing else. -/
theorem malformed_noBreakSpace :
    convert ⟨.scss, .strict⟩ "\u00a0\n  color red" =
      .error (.malformed .groupWithoutSelectors 1) ∧
    ∃ sheet, Stylesheet.ofSource "\u00a0\n  color red" = .ok sheet ∧
      (sheet.obstacles .strict).head? = some (.malformed .groupWithoutSelectors 1) := by
  have fails : convert ⟨.scss, .strict⟩ "\u00a0\n  color red" =
      .error (.malformed .groupWithoutSelectors 1) := by
    decide +kernel
  exact ⟨fails, (((convert_malformed "\u00a0\n  color red").2.1 _ _ _).1 fails).2⟩

end StylusToScss
