import StylusToScss.Proofs.Value.Regrouping

/-!
# Values with an operator behind them

The readers take the same from the front of tokens whatever stands behind these, if it starts with
an operator: an operand stays an operand (`prolonged_readUnary`), and a loop over operators stops at
the operator if it does not bind tightly enough (`prolonged_readOperators`). The proofs follow the
readers, by the same recursion. A name that is given a value is the exception, as its value has no
end of its own.
-/

namespace StylusToScss

variable {rest tokens tokens' : List Token} {token token' : Token}

/-! ## Tokens behind others -/

/-- The tokens belong to nothing in front of them. -/
def Stops (rest : List Token) : Prop :=
  ∀ next ∈ rest.head?, next.kind ∉
    [.leftParen, .assign, .conditionalAssign, .colon, .ident "not", .ident "important"]

/-- Tokens of the same kinds, of which the same touch, with these behind them. None of them gives a
value to a name. -/
inductive Prolongs (rest : List Token) : List Token → List Token → Prop
  | nil (stops : Stops rest) : Prolongs rest [] rest
  | cons {token token' : Token} {tokens tokens' : List Token} (same : token'.kind = token.kind)
      (touching : ∀ next ∈ tokens.head?, ∀ next' ∈ tokens'.head?,
        token'.touches next' = token.touches next)
      (plain : token.kind ∉ [.assign, .conditionalAssign])
      (more : Prolongs rest tokens tokens') : Prolongs rest (token :: tokens) (token' :: tokens')

/-- Where the first reading succeeds and leaves tokens that fit, the second one gives the same value
and leaves these tokens prolonged. -/
def Prolonged (rest : List Token) (fits : List Token → Prop) {n : Nat} {α : Type}
    {tokens tokens' : List Token} (x : ReadResult n α tokens) (x' : ReadResult n α tokens') :
    Prop :=
  ∀ taken, x = .ok taken → fits taken.rest →
    ∃ taken', x' = .ok taken' ∧ taken'.value = taken.value ∧ Prolongs rest taken.rest taken'.rest

section
variable {n k : Nat} {α β : Type} {fits fits' : List Token → Prop} {source source' : List Token}

theorem Prolonged.ok {taken : Taken n α tokens} {taken' : Taken n α tokens'}
    (value : taken'.value = taken.value) (left : Prolongs rest taken.rest taken'.rest) :
    Prolonged rest fits (.ok taken : ReadResult n α tokens) (.ok taken') := by
  rintro _ ⟨⟩ -
  exact ⟨taken', rfl, value, left⟩

theorem Prolonged.error {fault : Located ParseFault} {x' : ReadResult n α tokens'} :
    Prolonged rest fits (.error fault : ReadResult n α tokens) x' := by
  rintro _ ⟨⟩

theorem Prolonged.bind {x : ReadResult n α tokens} {x' : ReadResult n α tokens'}
    {f : Taken n α tokens → ReadResult k β source} {f' : Taken n α tokens' → ReadResult k β source'}
    (h : Prolonged rest fits x x')
    (pass : ∀ taken whole, f taken = .ok whole → fits' whole.rest → fits taken.rest)
    (next : ∀ taken taken', taken'.value = taken.value → Prolongs rest taken.rest taken'.rest →
      Prolonged rest fits' (f taken) (f' taken')) :
    Prolonged rest fits' (x >>= f) (x' >>= f') := by
  intro whole read fit
  obtain ⟨taken, rfl, readBehind⟩ := bind_eq_ok_iff.1 read
  obtain ⟨taken', rfl, value, left⟩ := h taken rfl (pass taken whole readBehind fit)
  exact next taken taken' value left whole readBehind fit

/-- The first reading decides what is read next; both together take what the second one takes. -/
theorem Prolonged.andThen {m : Nat} {γ : Type} {x : ReadResult n α tokens}
    {x' : ReadResult n α tokens'} {y : (taken : Taken n α tokens) → ReadResult k β taken.rest}
    {y' : (taken : Taken n α tokens') → ReadResult k β taken.rest}
    {join : (taken : Taken n α tokens) → Taken k β taken.rest → Taken m γ source}
    {join' : (taken : Taken n α tokens') → Taken k β taken.rest → Taken m γ source'}
    (h : Prolonged rest fits x x')
    (longer : ∀ {left left' : List Token}, fits' left → left.length ≤ left'.length → fits left')
    (next : ∀ taken taken', taken'.value = taken.value → Prolongs rest taken.rest taken'.rest →
      Prolonged rest fits' (y taken) (y' taken'))
    (left : ∀ taken more, (join taken more).rest = more.rest)
    (left' : ∀ taken more, (join' taken more).rest = more.rest)
    (value : ∀ taken taken' more more', taken'.value = taken.value → more'.value = more.value →
      (join' taken' more').value = (join taken more).value) :
    Prolonged rest fits' (x >>= fun taken => y taken >>= fun more => pure (join taken more))
      (x' >>= fun taken => y' taken >>= fun more => pure (join' taken more)) := by
  refine h.bind ?_ fun taken taken' same behind => ?_
  · intro taken whole read fit
    obtain ⟨more, -, same⟩ := bind_eq_ok_iff.1 read
    cases same
    rw [left] at fit
    exact longer fit more.rest_le
  · refine (next taken taken' same behind).bind ?_ fun more more' same' behind' => ?_
    · rintro more _ ⟨⟩ fit
      rwa [left] at fit
    · refine .ok (value _ _ _ _ same same') ?_
      rwa [left, left']

/-- The value of a reading becomes another one. -/
theorem Prolonged.giving {m : Nat} {x : ReadResult n α tokens} {x' : ReadResult n α tokens'}
    {g : Taken n α tokens → Taken m β source} {g' : Taken n α tokens' → Taken m β source'}
    (h : Prolonged rest fits x x') (left : ∀ taken, (g taken).rest = taken.rest)
    (left' : ∀ taken, (g' taken).rest = taken.rest)
    (value : ∀ taken taken', taken'.value = taken.value → (g' taken').value = (g taken).value) :
    Prolonged rest fits (x >>= fun taken => pure (g taken))
      (x' >>= fun taken => pure (g' taken)) := by
  refine h.bind ?_ fun taken taken' same behind => ?_
  · rintro taken _ ⟨⟩ fit
    rwa [left] at fit
  · refine .ok (value _ _ same) ?_
    rwa [left, left']

end

theorem Prolongs.eq_nil (h : Prolongs rest tokens tokens') (none : tokens = []) :
    tokens' = rest := by
  subst none
  cases h
  rfl

/-- The site with another end. -/
def ValueSite.ending (site : ValueSite) (endLine endColumn : Nat) : ValueSite :=
  ⟨site.line, endLine, endColumn⟩

@[simp] theorem ValueSite.line_ending (site : ValueSite) (endLine endColumn : Nat) :
    (site.ending endLine endColumn).line = site.line := rfl

/-! ## Marks -/

theorem Stops.isWord_eq_false {next : Token} (stops : Stops (next :: rest)) {word : String}
    (mem : word ∈ ["not", "important"]) : next.kind.isWord word = false := by
  rw [Bool.eq_false_iff, Ne, Kind.isWord_iff]
  intro same
  refine stops next rfl ?_
  rw [same]
  simp only [List.mem_cons, List.not_mem_nil, or_false] at mem
  rcases mem with rfl | rfl <;> decide

section
variable (h : Prolongs rest (token :: tokens) (token' :: tokens'))
include h

theorem important?_prolonged : Option.Rel (fun a b => Prolongs rest a.rest b.rest)
    (important? (token :: tokens)) (important? (token' :: tokens')) := by
  obtain _ | ⟨same, touching, -, more⟩ := h
  cases more with
  | nil stops =>
    have none : important? (token' :: rest) = none := by
      cases rest with
      | nil => rfl
      | cons next rest =>
        rw [important?_cons_cons, stops.isWord_eq_false (by decide), Bool.and_false]
        rfl
    rw [none]
    exact .none
  | @cons next next' tokens tokens' same' _ _ more =>
    rw [important?_cons_cons, important?_cons_cons, same, same', touching next rfl next' rfl]
    split
    · exact .some more
    · exact .none

theorem operator?_prolonged :
    Option.Rel (fun a b => b.value = a.value ∧ Prolongs rest a.rest b.rest)
      (operator? (token :: tokens)) (operator? (token' :: tokens')) := by
  have single (op? : Option Operator) {tokens tokens' : List Token}
      (more : Prolongs rest tokens tokens') :
      Option.Rel (fun a b => b.value = a.value ∧ Prolongs rest a.rest b.rest)
        (op?.map (@Taken.first _ token tokens)) (op?.map (@Taken.first _ token' tokens')) := by
    cases op? with
    | none => exact .none
    | some op => exact .some ⟨rfl, more⟩
  obtain _ | ⟨same, touching, -, more⟩ := h
  cases more with
  | nil stops =>
    have one : operator? (token' :: rest) =
        (Operator.ofKind? token.kind).map fun op => .first op := by
      cases rest with
      | nil => rw [← same]; rfl
      | cons next rest =>
        rw [operator?_cons_cons, stops.isWord_eq_false (by decide), Bool.and_false, same]
        rfl
    rw [one]
    exact single _ (.nil stops)
  | @cons next next' tokens tokens' same' touching' plain more =>
    rw [operator?_cons_cons, operator?_cons_cons, same, same']
    split
    · exact .some ⟨rfl, more⟩
    · exact single _ (.cons same' touching' plain more)

end

/-! ## Readers -/

/-- Tokens are left. -/
abbrev Remains (left : List Token) : Prop := left ≠ []

/-- If no tokens are left, then no operator of this precedence follows. -/
def EndsBelow (rest : List Token) (least : Nat) (left : List Token) : Prop :=
  left = [] → Below least rest

theorem Remains.of_le {left left' : List Token} (h : Remains left)
    (le : left.length ≤ left'.length) : Remains left' := by
  rintro rfl
  exact h (List.length_eq_zero_iff.1 (Nat.le_zero.1 le))

theorem Taken.remains {n : Nat} {α : Type} (taken : Taken (n + 1) α tokens) : Remains tokens := by
  rintro rfl
  cases taken.rest_lt

theorem Remains.endsBelow {left : List Token} (h : Remains left) (least : Nat) :
    EndsBelow rest least left := fun none => absurd none h

variable {site : ValueSite} {endLine endColumn : Nat}

theorem prolonged_readClosing (h : Prolongs rest tokens tokens') :
    Prolonged rest (fun _ => True) (readClosing site tokens)
      (readClosing (site.ending endLine endColumn) tokens') := by
  cases h with
  | nil => exact .error
  | @cons token token' tokens tokens' same _ _ more =>
    obtain ⟨kind, span⟩ := token
    obtain ⟨kind', span'⟩ := token'
    obtain rfl : kind' = kind := same
    cases kind' with
    | rightParen => exact .ok rfl more
    | _ => exact .error

theorem prolonged_readSeparator (h : Prolongs rest tokens tokens') :
    Prolonged rest (fun _ => True) (readSeparator site tokens)
      (readSeparator (site.ending endLine endColumn) tokens') := by
  cases h with
  | nil => exact .error
  | @cons token token' tokens tokens' same _ _ more =>
    obtain ⟨kind, span⟩ := token
    obtain ⟨kind', span'⟩ := token'
    obtain rfl : kind' = kind := same
    cases kind' with
    | comma | rightParen => exact .ok rfl more
    | _ => exact .error

/-- An argument without a name is a sequence. -/
theorem readArgument_bare (bare : ∀ first next behind name, tokens = first :: next :: behind →
    first.kind = .ident name → next.kind ≠ .colon) : readArgument site tokens =
      readSequence site tokens >>= fun e => pure (e.map Expression.asArgument) := by
  rw [readArgument.eq_def]
  split
  · exact absurd rfl (bare _ _ _ _ rfl rfl)
  · rfl

mutual

theorem prolonged_readList (tokens : List Token) {tokens' : List Token}
    (h : Prolongs rest tokens tokens') :
    Prolonged rest Remains (readList site tokens)
      (readList (site.ending endLine endColumn) tokens') := by
  unfold readList
  refine (prolonged_readSequence tokens h).andThen Remains.of_le (fun first _ _ left => ?_)
    (fun _ _ => rfl) (fun _ _ => rfl) fun _ _ _ _ value value' => ?_
  · have := first.rest_lt
    exact prolonged_readFurther first.rest left
  · show Expression.ofSequences _ _ _ = Expression.ofSequences _ _ _
    rw [value, value', ValueSite.line_ending]
termination_by 16 * tokens.length + 7

theorem prolonged_readFurther (tokens : List Token) {tokens' : List Token}
    (h : Prolongs rest tokens tokens') :
    Prolonged rest Remains (readFurther site tokens)
      (readFurther (site.ending endLine endColumn) tokens') := by
  unfold readFurther
  cases h with
  | nil =>
    rintro _ ⟨⟩ some
    exact absurd rfl some
  | @cons token token' tokens tokens' same touching plain more =>
    obtain ⟨kind, span⟩ := token
    obtain ⟨kind', span'⟩ := token'
    obtain rfl : kind' = kind := same
    cases kind' with
    | comma =>
      refine (prolonged_readSequence tokens more).andThen Remains.of_le
        (fun sequence _ _ left => ?_) (fun _ _ => rfl) (fun _ _ => rfl)
        fun _ _ _ _ value value' => ?_
      · have := sequence.rest_lt
        exact prolonged_readFurther sequence.rest left
      · show List.cons _ _ = List.cons _ _
        rw [value, value']
    | _ => exact .ok rfl (.cons rfl touching plain more)
termination_by 16 * tokens.length + 0

theorem prolonged_readSequence (tokens : List Token) {tokens' : List Token}
    (h : Prolongs rest tokens tokens') :
    Prolonged rest Remains (readSequence site tokens)
      (readSequence (site.ending endLine endColumn) tokens') := by
  unfold readSequence
  cases h with
  | nil => exact .error
  | @cons token token' tokens tokens' same touching plain more =>
    have h := Prolongs.cons same touching plain more
    simp only
    rw [same]
    split
    · exact .error
    · refine (prolonged_readBinary 0 (token :: tokens) h).andThen
        (fun some le => (some.of_le le).endsBelow 0) (fun first _ _ left => ?_)
        (fun _ _ => rfl) (fun _ _ => rfl) fun _ _ _ _ value value' => ?_
      · have shorter : first.rest.length ≤ tokens.length := Nat.le_of_lt_succ first.rest_lt
        exact prolonged_readOperands first.rest left
      · show Expression.sequence _ _ = Expression.sequence _ _
        rw [value, value', ValueSite.line_ending]
termination_by 16 * tokens.length + 6

theorem prolonged_readOperands (tokens : List Token) {tokens' : List Token}
    (h : Prolongs rest tokens tokens') :
    Prolonged rest Remains (readOperands site tokens)
      (readOperands (site.ending endLine endColumn) tokens') := by
  unfold readOperands
  cases h with
  | nil =>
    rintro _ ⟨⟩ some
    exact absurd rfl some
  | @cons token token' tokens tokens' same touching plain more =>
    have h := Prolongs.cons same touching plain more
    simp only
    rw [same]
    split
    · exact .ok rfl h
    · refine (prolonged_readBinary 0 (token :: tokens) h).andThen
        (fun some le => (some.of_le le).endsBelow 0) (fun first _ _ left => ?_)
        (fun _ _ => rfl) (fun _ _ => rfl) fun _ _ _ _ value value' => ?_
      · have shorter : first.rest.length ≤ tokens.length := Nat.le_of_lt_succ first.rest_lt
        exact prolonged_readOperands first.rest left
      · show List.cons _ _ = List.cons _ _
        rw [value, value']
termination_by 16 * tokens.length + 6

theorem prolonged_readBinary (least : Nat) (tokens : List Token) {tokens' : List Token}
    (h : Prolongs rest tokens tokens') :
    Prolonged rest (EndsBelow rest least) (readBinary site least tokens)
      (readBinary (site.ending endLine endColumn) least tokens') := by
  unfold readBinary
  refine (prolonged_readUnary tokens h).andThen (fun _ _ => trivial)
    (fun first first' value left => ?_) (fun _ _ => rfl) (fun _ _ => rfl)
    fun _ _ _ _ _ value => value
  have := first.rest_lt
  rw [value]
  exact prolonged_readOperators least first.value first.rest left
termination_by 16 * tokens.length + 5

theorem prolonged_readOperators (least : Nat) (left : Node) (tokens : List Token)
    {tokens' : List Token} (h : Prolongs rest tokens tokens') :
    Prolonged rest (EndsBelow rest least) (readOperators site least left tokens)
      (readOperators (site.ending endLine endColumn) least left tokens') := by
  cases h with
  | nil stops =>
    intro taken read below
    rw [readOperators] at read
    cases read
    obtain ⟨taken', read', value, left'⟩ := gives_readOperators_done (below rfl)
    refine ⟨taken', read', value, ?_⟩
    rw [left']
    exact .nil stops
  | @cons token token' tokens tokens' same touching plain more =>
    have h := Prolongs.cons same touching plain more
    have found := operator?_prolonged h
    unfold readOperators
    revert found
    generalize operator? (token :: tokens) = op?
    generalize operator? (token' :: tokens') = op?'
    rintro (@⟨op, op', value, behind⟩ | _)
    · simp only
      rw [value]
      split
      · exact .ok rfl h
      · next least_le =>
        have : op.rest.length < tokens.length + 1 := op.rest_lt
        refine (prolonged_readBinary op.value.rightPrecedence op.rest behind).andThen
          (fun below le none => ?_) (fun right right' value' left' => ?_) (fun _ _ => rfl)
          (fun _ _ => rfl) fun _ _ _ _ _ value => value
        · subst none
          refine (below (List.length_eq_zero_iff.1 (Nat.le_zero.1 le))).mono ?_
          unfold Operator.rightPrecedence
          split <;> omega
        · have := right.rest_lt
          rw [value']
          exact prolonged_readOperators least _ right.rest left'
    · exact .ok rfl h
termination_by 16 * tokens.length + 0

theorem prolonged_readUnary (tokens : List Token) {tokens' : List Token}
    (h : Prolongs rest tokens tokens') :
    Prolonged rest (fun _ => True) (readUnary site tokens)
      (readUnary (site.ending endLine endColumn) tokens') := by
  unfold readUnary
  cases h with
  | nil => exact .error
  | @cons token token' tokens tokens' same touching plain more =>
    have h := Prolongs.cons same touching plain more
    have marked := important?_prolonged h
    simp only
    revert marked
    generalize important? (token :: tokens) = word?
    generalize important? (token' :: tokens') = word?'
    rintro (word | _)
    · exact .ok rfl word
    · simp only
      rw [same]
      cases token.kind.unarySpelling? with
      | some spelling =>
        refine (prolonged_readUnary tokens more).giving (fun _ => rfl) (fun _ => rfl)
          fun _ _ value => ?_
        show Node.unary _ _ _ = Node.unary _ _ _
        rw [value, ValueSite.line_ending]
      | none =>
        exact (prolonged_readPrimary token tokens same touching more).giving (fun _ => rfl)
          (fun _ => rfl) fun _ _ value => value
termination_by 16 * tokens.length + 4

theorem prolonged_readPrimary (token : Token) {token' : Token} (tokens : List Token)
    {tokens' : List Token} (same : token'.kind = token.kind)
    (touching : ∀ next ∈ tokens.head?, ∀ next' ∈ tokens'.head?,
      token'.touches next' = token.touches next) (h : Prolongs rest tokens tokens') :
    Prolonged rest (fun _ => True) (readPrimary site token tokens)
      (readPrimary (site.ending endLine endColumn) token' tokens') := by
  unfold readPrimary
  rw [same]
  cases token.kind with
  | number value unit => exact .ok rfl h
  | string value quote => exact .ok rfl h
  | hash word =>
    simp only
    split
    · exact .ok rfl h
    · exact .ok rfl h
  | url raw => exact .ok rfl h
  | atWord name => exact .ok rfl h
  | ident name => exact prolonged_readName token name tokens touching h
  | leftParen =>
    refine (prolonged_readList tokens h).bind ?_ fun inner inner' value left => ?_
    · intro inner whole read _
      obtain ⟨closing, -, -⟩ := bind_eq_ok_iff.1 read
      exact closing.remains
    · refine (prolonged_readClosing left).giving (fun _ => rfl) (fun _ => rfl) fun _ _ _ => ?_
      exact congrArg (fun e => Node.expression (Expression.inParentheses e)) value
  | _ => exact .error
termination_by 16 * tokens.length + (16 + 3)

theorem prolonged_readName (token : Token) {token' : Token} (name : String) (tokens : List Token)
    {tokens' : List Token} (touching : ∀ next ∈ tokens.head?, ∀ next' ∈ tokens'.head?,
      token'.touches next' = token.touches next) (h : Prolongs rest tokens tokens') :
    Prolonged rest (fun _ => True) (readName site token name tokens)
      (readName (site.ending endLine endColumn) token' name tokens') := by
  unfold readName
  split
  · exact .ok rfl h
  · split
    · exact .ok rfl h
    · cases h with
      | nil stops =>
        cases rest with
        | nil => exact .ok rfl (.nil stops)
        | cons next rest =>
          obtain ⟨kind, span⟩ := next
          have plain := stops _ rfl
          cases kind with
          | leftParen | assign | conditionalAssign => simp at plain
          | _ => exact .ok rfl (.nil stops)
      | @cons next next' tokens tokens' same touching' plain more =>
        have h := Prolongs.cons same touching' plain more
        obtain ⟨kind, span⟩ := next
        obtain ⟨kind', span'⟩ := next'
        obtain rfl : kind' = kind := same
        cases kind' with
        | leftParen =>
          simp only
          rw [touching _ rfl _ rfl]
          split
          · refine (prolonged_readArguments tokens more).giving (fun _ => rfl) (fun _ => rfl)
              fun _ _ value => ?_
            show Node.call _ ⟨_, _⟩ _ = Node.call _ ⟨_, _⟩ _
            rw [value, ValueSite.line_ending]
          · exact .ok rfl h
        | assign | conditionalAssign => simp at plain
        | _ => exact .ok rfl h
termination_by 16 * tokens.length + (16 + 2)

theorem prolonged_readArguments (tokens : List Token) {tokens' : List Token}
    (h : Prolongs rest tokens tokens') :
    Prolonged rest (fun _ => True) (readArguments site tokens)
      (readArguments (site.ending endLine endColumn) tokens') := by
  cases h with
  | nil =>
    intro taken read
    unfold readArguments readArgumentList readArgument readSequence at read
    cases read
  | @cons token token' tokens tokens' same touching plain more =>
    have h := Prolongs.cons same touching plain more
    unfold readArguments
    obtain ⟨kind, span⟩ := token
    obtain ⟨kind', span'⟩ := token'
    obtain rfl : kind' = kind := same
    cases kind' with
    | rightParen => exact .ok rfl more
    | _ => exact prolonged_readArgumentList _ h
termination_by 16 * tokens.length + 10

theorem prolonged_readArgumentList (tokens : List Token) {tokens' : List Token}
    (h : Prolongs rest tokens tokens') :
    Prolonged rest (fun _ => True) (readArgumentList site tokens)
      (readArgumentList (site.ending endLine endColumn) tokens') := by
  unfold readArgumentList
  refine (prolonged_readArgument tokens h).bind ?_ fun first first' value left => ?_
  · intro first whole read _
    obtain ⟨separator, -, -⟩ := bind_eq_ok_iff.1 read
    exact separator.remains
  · have := first.rest_lt
    refine (prolonged_readSeparator left).bind (fun _ _ _ _ => trivial)
      fun separator separator' comma behind => ?_
    have := separator.rest_lt
    rw [comma]
    split
    · refine (prolonged_readArgumentList separator.rest behind).giving (fun _ => rfl)
        (fun _ => rfl) fun _ _ value' => ?_
      show List.cons _ _ = List.cons _ _
      rw [value]
      exact congrArg _ value'
    · exact .ok (congrArg (fun node => [node]) value) behind
termination_by 16 * tokens.length + 9

theorem prolonged_readArgument (tokens : List Token) {tokens' : List Token}
    (h : Prolongs rest tokens tokens') :
    Prolonged rest Remains (readArgument site tokens)
      (readArgument (site.ending endLine endColumn) tokens') := by
  cases h with
  | nil =>
    intro taken read
    unfold readArgument readSequence at read
    cases read
  | @cons token token' tokens tokens' same touching plain more =>
    have h := Prolongs.cons same touching plain more
    by_cases named : ∃ name next behind, token.kind = .ident name ∧ tokens = next :: behind ∧
        next.kind = .colon
    · obtain ⟨name, next, behind, kind, rfl, colon⟩ := named
      obtain _ | @⟨_, next', _, behind', same', _, _, more⟩ := more
      obtain ⟨_, span⟩ := token
      obtain ⟨_, span'⟩ := token'
      obtain ⟨_, span₂⟩ := next
      obtain ⟨_, span₂'⟩ := next'
      cases kind
      cases colon
      cases same
      cases same'
      unfold readArgument
      refine (prolonged_readSequence behind more).giving (fun _ => rfl) (fun _ => rfl)
        fun _ _ value => ?_
      show Node.bound _ (.expression _) _ = Node.bound _ (.expression _) _
      rw [value, ValueSite.line_ending]
    · have bare : readArgument site (token :: tokens) = _ := readArgument_bare ?_
      have bare' : readArgument (site.ending endLine endColumn) (token' :: tokens') = _ :=
        readArgument_bare ?_
      · rw [bare, bare']
        exact (prolonged_readSequence _ h).giving (fun _ => rfl) (fun _ => rfl)
          fun _ _ value => congrArg Expression.asArgument value
      · rintro first next behind name ⟨⟩ kind colon
        cases more with
        | nil stops => exact stops next rfl (by simp [colon])
        | cons same' _ _ _ => exact named ⟨name, _, _, same ▸ kind, rfl, same' ▸ colon⟩
      · rintro first next behind name ⟨⟩ kind colon
        exact named ⟨name, _, _, kind, rfl, colon⟩
termination_by 16 * tokens.length + 8

end

end StylusToScss
