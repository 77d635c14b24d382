import Mathlib.Data.String.Basic
import StylusToScss.Position

/-!
# Slices of a source

A slice of a text between the byte lengths of two of its prefixes is what stands between the
prefixes. So a cut of a text into parts gives the slices at the offsets of the cut.
-/

namespace StylusToScss

theorem byteLength_eq_utf8Len (text : List Char) : byteLength text = String.utf8Len text := by
  induction text with
  | nil => rfl
  | cons c rest ih => rw [byteLength, ih, String.utf8Len, Nat.add_comm]

theorem utf8ByteSize_eq_byteLength (source : String) :
    source.utf8ByteSize = byteLength source.toList := by
  rw [byteLength_eq_utf8Len, ← String.utf8ByteSize_ofList, String.ofList_toList]

/-- The byte length of a prefix is the offset of a boundary between characters. -/
theorem isValid_byteLength {source : String} {a b : List Char} (h : source.toList = a ++ b) :
    String.Pos.Raw.IsValid source ⟨byteLength a⟩ := by
  rw [String.Pos.Raw.isValid_iff_exists_take_toList]
  refine ⟨a.length, ?_⟩
  rw [h, List.take_left, String.utf8ByteSize_ofList, byteLength_eq_utf8Len]

theorem slice?_eq_some {source : String} {a b c : List Char} (h : source.toList = a ++ b ++ c) :
    slice? source (byteLength a) (byteLength a + byteLength b) = some (String.ofList b) := by
  have start : String.Pos.Raw.IsValid source ⟨byteLength a⟩ :=
    isValid_byteLength (b := b ++ c) (by rw [h, List.append_assoc])
  have stop : String.Pos.Raw.IsValid source ⟨byteLength a + byteLength b⟩ := by
    rw [← byteLength_append]
    exact isValid_byteLength h
  rw [slice?, if_pos ⟨Nat.le_add_right _ _, start, stop⟩]
  rw [← String.ofList_toList (s := source), h, byteLength_eq_utf8Len, byteLength_eq_utf8Len,
    String.extract_of_valid]

/-- There is a slice exactly between offsets in order, both at boundaries of characters. -/
theorem slice?_isSome_iff {source : String} {start stop : Nat} :
    (slice? source start stop).isSome ↔ start ≤ stop ∧
      String.Pos.Raw.IsValid source ⟨start⟩ ∧ String.Pos.Raw.IsValid source ⟨stop⟩ := by
  unfold slice?
  split <;> simp_all

theorem byteLength_eq_zero_iff {text : List Char} : byteLength text = 0 ↔ text = [] := by
  cases text with
  | nil => simp [byteLength]
  | cons c text =>
    have := c.utf8Size_pos
    simp only [byteLength, reduceCtorEq, iff_false]
    omega

/-- Of two prefixes of a text, the one with fewer bytes is a prefix of the other. -/
theorem prefix_of_byteLength_le {a b text : List Char} (ha : a <+: text) (hb : b <+: text)
    (fewer : byteLength a ≤ byteLength b) : a <+: b := by
  rcases List.prefix_or_prefix_of_prefix ha hb with h | ⟨more, rfl⟩
  · exact h
  · rw [byteLength_append] at fewer
    have none : more = [] := byteLength_eq_zero_iff.1 (by omega)
    simp [none]

/-- A boundary of characters is the end of a prefix. -/
theorem exists_prefix_of_isValid {source : String} {offset : Nat}
    (h : String.Pos.Raw.IsValid source ⟨offset⟩) :
    ∃ a, a <+: source.toList ∧ offset = byteLength a := by
  obtain ⟨i, hi⟩ := String.Pos.Raw.isValid_iff_exists_take_toList.1 h
  refine ⟨source.toList.take i, List.take_prefix _ _, ?_⟩
  rw [byteLength_eq_utf8Len, ← String.utf8ByteSize_ofList]
  exact hi

/-- A slice is what stands between two prefixes. -/
theorem split_of_slice? {source text : String} {start stop : Nat}
    (h : slice? source start stop = some text) : ∃ before after,
      source.toList = before ++ text.toList ++ after ∧ start = byteLength before ∧
        stop = start + byteLength text.toList := by
  have bounds := slice?_isSome_iff.1 (Option.isSome_of_eq_some h)
  obtain ⟨a, ha, rfl⟩ := exists_prefix_of_isValid bounds.2.1
  obtain ⟨b, hb, rfl⟩ := exists_prefix_of_isValid bounds.2.2
  obtain ⟨mid, rfl⟩ := prefix_of_byteLength_le ha hb bounds.1
  obtain ⟨after, split⟩ := hb
  rw [byteLength_append, slice?_eq_some split.symm] at h
  cases h
  refine ⟨a, after, ?_, rfl, ?_⟩
  · rw [String.toList_ofList, split]
  · rw [String.toList_ofList, byteLength_append]

/-- Two slices next to each other make up one. -/
theorem slice?_append {source text text' : String} {a b c : Nat}
    (h : slice? source a b = some text) (h' : slice? source b c = some text') :
    slice? source a c = some (text ++ text') := by
  obtain ⟨before, after, split, rfl, rfl⟩ := split_of_slice? h
  obtain ⟨before', after', split', starts, rfl⟩ := split_of_slice? h'
  rw [← byteLength_append] at starts
  have ends : before ++ text.toList <+: source.toList := ⟨_, split.symm⟩
  have ends' : before' <+: source.toList := ⟨_, by rw [split', List.append_assoc]⟩
  obtain ⟨more, rfl⟩ := prefix_of_byteLength_le ends ends' (Nat.le_of_eq starts)
  have none : more = [] := by
    rw [byteLength_append _ more] at starts
    exact byteLength_eq_zero_iff.1 (by omega)
  subst none
  rw [List.append_nil, List.append_assoc before, ← String.toList_append] at split'
  rw [Nat.add_assoc, ← byteLength_append, ← String.toList_append, slice?_eq_some split',
    String.ofList_toList]

/-- What stands in a slice stands in every slice around it. -/
theorem slice?_isInfix {source inner outer : String} {a b c d : Nat}
    (hi : slice? source b c = some inner) (ho : slice? source a d = some outer) (left : a ≤ b)
    (right : c ≤ d) : inner.toList <:+: outer.toList := by
  obtain ⟨before, after, split, rfl, rfl⟩ := split_of_slice? hi
  obtain ⟨before', after', split', rfl, rfl⟩ := split_of_slice? ho
  have starts : before <+: source.toList := ⟨_, by rw [split, List.append_assoc]⟩
  have starts' : before' <+: source.toList := ⟨_, by rw [split', List.append_assoc]⟩
  have ends : before ++ inner.toList <+: source.toList := ⟨_, split.symm⟩
  have ends' : before' ++ outer.toList <+: source.toList := ⟨_, split'.symm⟩
  obtain ⟨more, rfl⟩ := prefix_of_byteLength_le starts' starts left
  rw [← byteLength_append, ← byteLength_append] at right
  obtain ⟨rest, hr⟩ := prefix_of_byteLength_le ends ends' right
  rw [List.append_assoc, List.append_assoc, List.append_cancel_left_eq] at hr
  exact ⟨more, rest, by rw [← hr, List.append_assoc]⟩

theorem slice?_stop_le {source text : String} {start stop : Nat}
    (h : slice? source start stop = some text) : stop ≤ byteLength source.toList := by
  obtain ⟨before, after, split, rfl, rfl⟩ := split_of_slice? h
  rw [split, byteLength_append, byteLength_append]
  exact Nat.le_add_right _ _

/-- A slice of what two sources start with is a slice of both. -/
theorem slice?_front {source source' text : String} {front rest rest' : List Char}
    {start stop : Nat} (split : source.toList = front ++ rest)
    (split' : source'.toList = front ++ rest') (inside : stop ≤ byteLength front)
    (h : slice? source start stop = some text) : slice? source' start stop = some text := by
  obtain ⟨before, after, cut, rfl, rfl⟩ := split_of_slice? h
  rw [← byteLength_append] at inside
  have starts : before ++ text.toList <+: source.toList := ⟨after, cut.symm⟩
  have starts' : front <+: source.toList := ⟨rest, split.symm⟩
  obtain ⟨more, rfl⟩ := prefix_of_byteLength_le starts starts' inside
  rw [List.append_assoc] at split'
  rw [slice?_eq_some split', String.ofList_toList]

/-- A slice of what two sources end with is a slice of both. -/
theorem slice?_back {source source' text : String} {front front' back : List Char}
    {start stop : Nat} (split : source.toList = front ++ back)
    (split' : source'.toList = front' ++ back)
    (h : slice? source (byteLength front + start) (byteLength front + stop) = some text) :
    slice? source' (byteLength front' + start) (byteLength front' + stop) = some text := by
  obtain ⟨before, after, cut, starts, stops⟩ := split_of_slice? h
  have ahead : front <+: source.toList := ⟨back, split.symm⟩
  have ahead' : before <+: source.toList := ⟨text.toList ++ after, by rw [cut, List.append_assoc]⟩
  obtain ⟨more, rfl⟩ := prefix_of_byteLength_le ahead ahead' (by omega)
  rw [byteLength_append] at starts
  rw [split, List.append_assoc, List.append_assoc, List.append_cancel_left_eq] at cut
  rw [cut, ← List.append_assoc, ← List.append_assoc] at split'
  have slice := slice?_eq_some split'
  rw [String.ofList_toList, byteLength_append] at slice
  rwa [show byteLength front' + start = byteLength front' + byteLength more by omega,
    show byteLength front' + stop =
      byteLength front' + byteLength more + byteLength text.toList by omega]

end StylusToScss
