import StylusToScss.Token.Basic

/-!
# What a reader takes from the front of a list of tokens

A reader gives a value and the tokens that are left. `Taken` holds both with the least number of
tokens that have gone, so that reading on from what is left ends.

* `Taken.andThen` joins two readings, one of which starts where the other ends.
* `Taken.behind` puts a token in front of what has been read.
-/

namespace StylusToScss

/-- A value read from the front of `tokens`, and what is left after at least `atLeast` of them. -/
structure Taken (atLeast : Nat) (α : Type) (tokens : List Token) where
  value : α
  rest : List Token
  length_le : rest.length + atLeast ≤ tokens.length

namespace Taken

variable {n k : Nat} {α β γ : Type} {token : Token} {rest tokens : List Token}

theorem rest_lt (taken : Taken (n + 1) α tokens) : taken.rest.length < tokens.length := by
  have := taken.length_le
  omega

theorem rest_le (taken : Taken n α tokens) : taken.rest.length ≤ tokens.length := by
  have := taken.length_le
  omega

/-- A value read from no token. -/
def nothing (value : α) : Taken 0 α tokens := ⟨value, tokens, Nat.le_refl _⟩

/-- A value read from the first token. -/
def first (value : α) : Taken 1 α (token :: rest) := ⟨value, rest, Nat.le_refl _⟩

/-- The same tokens with another value. -/
def map (f : α → β) (taken : Taken n α tokens) : Taken n β tokens :=
  ⟨f taken.value, taken.rest, taken.length_le⟩

/-- The same reading, of which it is forgotten how many tokens it takes. -/
def loose (taken : Taken n α tokens) : Taken 0 α tokens :=
  ⟨taken.value, taken.rest, taken.rest_le⟩

/-- A reading with one more token before it. -/
def behind (taken : Taken n α rest) : Taken 1 α (token :: rest) :=
  ⟨taken.value, taken.rest, Nat.succ_le_succ taken.rest_le⟩

/-- Two readings, the second of what the first one leaves. -/
def andThen (taken : Taken n α tokens) (next : Taken k β taken.rest) (f : α → β → γ) :
    Taken n γ tokens :=
  ⟨f taken.value next.value, next.rest,
    Nat.le_trans (Nat.add_le_add_right next.rest_le n) taken.length_le⟩

/-- Two readings, of which the value of the second stays. -/
def after (taken : Taken n α tokens) (next : Taken k β taken.rest) : Taken n β tokens :=
  taken.andThen next fun _ value => value

end Taken
end StylusToScss
