import Mathlib.Data.List.Infix

/-!
# Balanced lists

A list is balanced in an opening and a closing item if no part of it from the front on closes more
than has been opened, and the whole closes all that it opens.
-/

namespace StylusToScss

variable {α : Type}

/-- A part of two lists from the front on is a part of the first, or goes on into the second. -/
theorem prefix_of_prefix_append {a b front : List α} (h : front <+: a ++ b) :
    front <+: a ∨ ∃ more, more <+: b ∧ front = a ++ more := by
  obtain ⟨behind, split⟩ := h
  rcases List.append_eq_append_iff.1 split with ⟨more, rfl, -⟩ | ⟨more, rfl, rfl⟩
  · exact .inl (List.prefix_append front more)
  · exact .inr ⟨more, List.prefix_append more behind, rfl⟩

variable [DecidableEq α] {opening closing : α} {a b : List α}

/-- Every part from the front on holds at least as many opening as closing items, and the whole
equally many. -/
structure Balanced (opening closing : α) (l : List α) : Prop where
  front : ∀ front, front <+: l → front.count closing ≤ front.count opening
  whole : l.count closing = l.count opening

namespace Balanced

theorem of_not_mem (opens : opening ∉ a) (closes : closing ∉ a) : Balanced opening closing a where
  front := by
    intro front h
    rw [List.count_eq_zero_of_not_mem fun mem => closes (h.subset mem)]
    exact Nat.zero_le _
  whole := by rw [List.count_eq_zero_of_not_mem opens, List.count_eq_zero_of_not_mem closes]

theorem nil : Balanced opening closing ([] : List α) := of_not_mem List.not_mem_nil List.not_mem_nil

theorem append (ha : Balanced opening closing a) (hb : Balanced opening closing b) :
    Balanced opening closing (a ++ b) where
  front := by
    intro front h
    rcases prefix_of_prefix_append h with within | ⟨more, hm, rfl⟩
    · exact ha.front front within
    · rw [List.count_append, List.count_append, ha.whole]
      exact Nat.add_le_add_left (hb.front more hm) _
  whole := by rw [List.count_append, List.count_append, ha.whole, hb.whole]

/-- What is balanced stays so between an opening and a closing item. -/
theorem enclose (h : Balanced opening closing a) (differ : opening ≠ closing) :
    Balanced opening closing (opening :: (a ++ [closing])) where
  front := by
    intro front hf
    rcases List.prefix_cons_iff.1 hf with rfl | ⟨inside, rfl, hi⟩
    · simp
    rw [List.count_cons_self, List.count_cons_of_ne differ]
    rcases prefix_of_prefix_append hi with within | ⟨more, hm, rfl⟩
    · exact Nat.le_succ_of_le (h.front inside within)
    · have one : more.count closing ≤ 1 :=
        Nat.le_trans (hm.sublist.count_le closing) (by simp)
      rw [List.count_append, List.count_append, h.whole]
      omega
  whole := by
    rw [List.count_cons_self, List.count_cons_of_ne differ, List.count_append, List.count_append,
      h.whole, List.count_singleton_self, List.count_singleton]
    simp [differ.symm]

end Balanced

end StylusToScss
