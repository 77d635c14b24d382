/-!
# Outcomes of steps in sequence

A reading is a sequence of steps, each of which may fail. What is known of the whole is known of its
steps: it succeeds where all of them do, and otherwise fails with the failure of the first that does
not. `Yields` says what is known of both outcomes, and goes through a sequence step by step.
-/

namespace StylusToScss

variable {ε α β : Type}

theorem ok_bind (a : α) (f : α → Except ε β) : (.ok a >>= f) = f a := rfl

theorem map_eq_ok_iff {x : Except ε α} {f : α → β} {b : β} :
    x.map f = .ok b ↔ ∃ a, x = .ok a ∧ f a = b := by
  cases x with
  | ok a => simp [Except.map]
  | error e => simp [Except.map]

theorem bind_eq_ok_iff {x : Except ε α} {f : α → Except ε β} {b : β} :
    (x >>= f) = .ok b ↔ ∃ a, x = .ok a ∧ f a = .ok b := by
  cases x with
  | ok a => simp [ok_bind]
  | error e => simp [bind, Except.bind]

theorem map_eq_error_iff {x : Except ε α} {f : α → β} {e : ε} :
    x.map f = .error e ↔ x = .error e := by
  cases x with
  | ok a => simp [Except.map]
  | error e => simp [Except.map]

/-! ## What a step yields -/

/-- The value of a step that succeeds is good, and the failure of one that does not is as it may
be. -/
def Yields (good : α → Prop) (fault : ε → Prop) : Except ε α → Prop
  | .ok a => good a
  | .error e => fault e

namespace Yields

variable {good : α → Prop} {good' : β → Prop} {fault : ε → Prop}

theorem bind {x : Except ε α} {f : α → Except ε β} (h : Yields good fault x)
    (next : ∀ a, good a → Yields good' fault (f a)) : Yields good' fault (x >>= f) := by
  cases x with
  | ok a => exact next a h
  | error e => exact h

theorem mono {better : α → Prop} {x : Except ε α} (h : Yields better fault x)
    (imp : ∀ a, better a → good a) : Yields good fault x := by
  cases x with
  | ok a => exact imp a h
  | error e => exact h

theorem imp_fault {weaker : ε → Prop} {x : Except ε α} (h : Yields good fault x)
    (imp : ∀ e, fault e → weaker e) : Yields good weaker x := by
  cases x with
  | ok a => exact h
  | error e => exact imp e h

/-- A step of which nothing is known. -/
theorem any (x : Except ε α) : Yields (fun _ => True) (fun _ => True) x := by
  cases x with
  | ok a => trivial
  | error e => trivial

/-- What is known of both outcomes by one argument each is known together. -/
theorem and {other : α → Prop} {x : Except ε α} (h : Yields good fault x)
    (also : Yields other (fun _ => True) x) : Yields (fun a => good a ∧ other a) fault x := by
  cases x with
  | ok a => exact ⟨h, also⟩
  | error e => exact h

theorem of_eq_ok {x : Except ε α} {a : α} (h : Yields good fault x) (ok : x = .ok a) : good a := by
  rw [ok] at h
  exact h

theorem of_eq_error {x : Except ε α} {e : ε} (h : Yields good fault x) (error : x = .error e) :
    fault e := by
  rw [error] at h
  exact h

/-- Steps over the items of a list, each of which yields something good: as many values as items,
all good. -/
theorem mapM {items : List α} {f : α → Except ε β} (h : ∀ a ∈ items, Yields good' fault (f a)) :
    Yields (fun values => values.length = items.length ∧ ∀ b ∈ values, good' b) fault
      (items.mapM f) := by
  induction items with
  | nil => exact ⟨rfl, nofun⟩
  | cons a items ih =>
    rw [List.mapM_cons]
    refine (h a (.head _)).bind fun b hb => ?_
    refine (ih fun a' ha' => h a' (.tail _ ha')).bind fun values ⟨size, hv⟩ => ?_
    refine ⟨congrArg Nat.succ size, ?_⟩
    rintro b' (_ | ⟨_, hb'⟩)
    · exact hb
    · exact hv b' hb'

end Yields

/-! ## Two outcomes -/

/-- Two steps both succeed, and their values are related, or both fail, and their failures are. -/
def Agree {δ γ : Type} (good : α → γ → Prop) (bad : ε → δ → Prop) : Except ε α → Except δ γ → Prop
  | .ok a, .ok b => good a b
  | .error e, .error e' => bad e e'
  | _, _ => False

namespace Agree

variable {δ γ α' γ' : Type} {good : α → γ → Prop} {bad : ε → δ → Prop} {x : Except ε α}
  {x' : Except δ γ}

theorem bind {good' : α' → γ' → Prop} {f : α → Except ε α'} {f' : γ → Except δ γ'}
    (h : Agree good bad x x') (next : ∀ a b, good a b → Agree good' bad (f a) (f' b)) :
    Agree good' bad (x >>= f) (x' >>= f') := by
  match x, x', h with
  | .ok a, .ok b, h => exact next a b h
  | .error _, .error _, h => exact h

theorem map {good' : α' → γ' → Prop} {f : α → α'} {f' : γ → γ'} (h : Agree good bad x x')
    (next : ∀ a b, good a b → good' (f a) (f' b)) : Agree good' bad (x.map f) (x'.map f') := by
  match x, x', h with
  | .ok a, .ok b, h => exact next a b h
  | .error _, .error _, h => exact h

theorem of_map {g : γ' → γ} {y : Except δ γ'} (h : Agree good bad x (y.map g)) :
    Agree (fun a b => good a (g b)) bad x y := by
  cases x with
  | ok a =>
    cases y with
    | ok b => exact h
    | error e => exact h
  | error e =>
    cases y with
    | ok b => exact h
    | error e => exact h

theorem mono {good' : α → γ → Prop} {bad' : ε → δ → Prop} (h : Agree good bad x x')
    (imp : ∀ a b, good a b → good' a b) (imp' : ∀ e e', bad e e' → bad' e e') :
    Agree good' bad' x x' := by
  match x, x', h with
  | .ok a, .ok b, h => exact imp a b h
  | .error e, .error e', h => exact imp' e e' h

theorem of_eq_ok {a : α} (h : Agree good bad x x') (ok : x = .ok a) :
    ∃ b, x' = .ok b ∧ good a b := by
  match x, x', h with
  | .ok _, .ok b, h =>
    cases ok
    exact ⟨b, rfl, h⟩

theorem of_eq_error {e : ε} (h : Agree good bad x x') (error : x = .error e) :
    ∃ e', x' = .error e' ∧ bad e e' := by
  match x, x', h with
  | .error _, .error e', h =>
    cases error
    exact ⟨e', rfl, h⟩

end Agree

/-! ## From one outcome to another -/

/-- Where the first of two steps succeeds, the second succeeds with a related value. Where `strict`
holds, the second also fails as the first does. -/
def Carries (strict : Prop) (good : α → β → Prop) : Except ε α → Except ε β → Prop
  | .ok a, x' => ∃ b, x' = .ok b ∧ good a b
  | .error e, x' => strict → x' = .error e

namespace Carries

variable {α' β' : Type} {strict : Prop} {good : α → β → Prop} {good' : α' → β' → Prop}
  {x : Except ε α} {x' : Except ε β}

theorem ok {a : α} {b : β} (h : good a b) :
    Carries strict good (.ok a : Except ε α) (.ok b : Except ε β) :=
  ⟨b, rfl, h⟩

theorem error (e : ε) : Carries strict good (.error e) (.error e) := fun _ => rfl

theorem bind {f : α → Except ε α'} {f' : β → Except ε β'} (h : Carries strict good x x')
    (next : ∀ a b, good a b → Carries strict good' (f a) (f' b)) :
    Carries strict good' (x >>= f) (x' >>= f') := by
  cases x with
  | ok a =>
    obtain ⟨b, rfl, related⟩ := h
    exact next a b related
  | error e =>
    intro strict
    rw [h strict]
    rfl

theorem mono {better : α → β → Prop} (h : Carries strict better x x')
    (imp : ∀ a b, better a b → good a b) : Carries strict good x x' := by
  cases x with
  | ok a =>
    obtain ⟨b, same, related⟩ := h
    exact ⟨b, same, imp a b related⟩
  | error e => exact h

theorem of_agree {bad : ε → ε → Prop} (h : Agree good bad x x')
    (same : strict → ∀ e e', bad e e' → e' = e) : Carries strict good x x' := by
  cases x with
  | ok a => exact h.of_eq_ok rfl
  | error e =>
    intro strict
    obtain ⟨e', rfl, related⟩ := h.of_eq_error rfl
    rw [same strict e e' related]

theorem of_imp {strict' : Prop} (h : Carries strict good x x') (imp : strict' → strict) :
    Carries strict' good x x' := by
  cases x with
  | ok a => exact h
  | error e => exact fun strict' => h (imp strict')

/-- Two ways of stepping over the items of a list, item by item. -/
theorem mapM {γ : Type} {items : List γ} {f f' : γ → Except ε α} {raise : α → α}
    (h : ∀ item ∈ items, Carries strict (fun a a' => a' = raise a) (f item) (f' item)) :
    Carries strict (fun values values' => values' = values.map raise) (items.mapM f)
      (items.mapM f') := by
  induction items with
  | nil => exact .ok rfl
  | cons item items ih =>
    rw [List.mapM_cons, List.mapM_cons]
    refine (h item (.head _)).bind fun a a' same => ?_
    refine (ih fun other mem => h other (.tail _ mem)).bind fun values values' sames => ?_
    subst same sames
    exact .ok rfl

/-- Under `strict`, a step that carries its outcome to another one has the same outcome. -/
theorem eq_map {raise : α → β} (h : Carries True (fun a b => b = raise a) x x') :
    x' = x.map raise := by
  cases x with
  | ok a =>
    obtain ⟨b, rfl, rfl⟩ := h
    rfl
  | error e => exact h trivial

/-- Under `strict`, a step that carries its outcome on as it is has the same outcome. -/
theorem eq {x x' : Except ε α} (h : Carries True (fun a b => b = a) x x') : x' = x := by
  cases x with
  | ok a =>
    obtain ⟨b, rfl, rfl⟩ := h
    rfl
  | error e => exact h trivial

theorem of_eq_ok {a : α} (h : Carries strict good x x') (ok : x = .ok a) :
    ∃ b, x' = .ok b ∧ good a b := by
  rw [ok] at h
  exact h

/-- Two steps that carry their outcomes to each other agree. -/
theorem agree {strict' : Prop} {back : β → α → Prop} (h : Carries strict good x x')
    (h' : Carries strict' back x' x) : Agree good (fun _ _ => True) x x' := by
  cases x with
  | ok a =>
    obtain ⟨b, rfl, related⟩ := h
    exact related
  | error e =>
    cases x' with
    | ok b =>
      obtain ⟨a, same, -⟩ := h'
      cases same
    | error e' => trivial

end Carries

end StylusToScss
