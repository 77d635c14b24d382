/-!
# Blank characters

`isBlank` is the Unicode property White_Space, and `trim` takes the blanks off both ends of a text.

* `trim_trim`: what has been trimmed stays as it is.
-/

namespace StylusToScss.Text

/-- White space: the ASCII blanks, the next-line and no-break characters, and the Unicode spaces
and separators. -/
def isBlank (c : Char) : Bool :=
  (9 ≤ c.toNat && c.toNat ≤ 13) || c.toNat == 0x20 || c.toNat == 0x85 || c.toNat == 0xa0 ||
    c.toNat == 0x1680 || (0x2000 ≤ c.toNat && c.toNat ≤ 0x200a) || c.toNat == 0x2028 ||
    c.toNat == 0x2029 || c.toNat == 0x202f || c.toNat == 0x205f || c.toNat == 0x3000

/-- The text without the blanks at its end. -/
def trimRight (text : List Char) : List Char :=
  (text.reverse.dropWhile isBlank).reverse

/-- The text without the blanks at its ends. -/
def trim (text : List Char) : List Char :=
  trimRight (text.dropWhile isBlank)

theorem dropWhile_dropWhile {α : Type} (p : α → Bool) (l : List α) :
    (l.dropWhile p).dropWhile p = l.dropWhile p := by
  induction l with
  | nil => rfl
  | cons a l ih => by_cases h : p a = true <;> simp [h, ih]

theorem trimRight_trimRight (text : List Char) : trimRight (trimRight text) = trimRight text := by
  simp [trimRight, dropWhile_dropWhile]

/-- Nothing blank stands at the start of a trimmed text. -/
theorem dropWhile_isBlank_trim (text : List Char) : (trim text).dropWhile isBlank = trim text := by
  have starts : (text.dropWhile isBlank).dropWhile isBlank = text.dropWhile isBlank :=
    dropWhile_dropWhile isBlank text
  unfold trim
  cases hd : text.dropWhile isBlank with
  | nil => rfl
  | cons c rest =>
    have hc : isBlank c = false := by
      rw [hd] at starts
      cases h : isBlank c with
      | false => rfl
      | true =>
        have := congrArg List.length starts
        have le := (List.dropWhile_suffix (p := isBlank) (l := rest)).length_le
        simp [h] at this
        omega
    have key : ∃ tail, trimRight (c :: rest) = c :: tail := by
      refine ⟨trimRight rest, ?_⟩
      simp only [trimRight, List.reverse_cons, List.dropWhile_append]
      split
      · next h =>
        have h' : rest.reverse.dropWhile isBlank = [] := by simpa using h
        simp [hc, h']
      · simp
    obtain ⟨tail, ht⟩ := key
    simp [ht, hc]

theorem trim_trim (text : List Char) : trim (trim text) = trim text := by
  rw [trim, dropWhile_isBlank_trim]
  exact trimRight_trimRight _

end StylusToScss.Text
