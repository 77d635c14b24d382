import StylusToScss.Proofs.Statement.Moved

/-!
# Tokens of a text within a source

`Embedding.Meets` says how the tokens of a part and those of the whole source correspond: those of
the part are moved, the levels that the end of the part closes are closed in the whole too, and the
whole goes on there. What a reader asks of the tokens that are left has then the same answer in both
sources: what stands behind line breaks (`Meets.faces`), the rest of a line (`Meets.restOfLine`),
whether a block follows (`Meets.blockFollows`), and what stands behind it (`Meets.afterBlock`).
-/

namespace StylusToScss

variable {tokens tokens' rest rest' line : List Token} {token first : Token} {depth : Nat}
  {inLine : Bool}

/-! ## Line breaks and ends of lines -/

theorem skipNewlines_of_ne (h : token.kind ≠ .newline) :
    skipNewlines (token :: rest) = token :: rest :=
  List.dropWhile_cons_of_neg (by simpa using h)

theorem skipNewlines_newline (h : token.kind = .newline) :
    skipNewlines (token :: rest) = skipNewlines rest :=
  List.dropWhile_cons_of_pos (by simpa using h)

/-- Where a line is already at its end. -/
theorem line_ended (h : ∀ token ∈ tokens.head?, token.kind.endsLine = true) :
    tokens.takeWhile (fun token => !token.kind.endsLine) = [] ∧ afterLine tokens = tokens := by
  cases tokens with
  | nil => exact ⟨rfl, rfl⟩
  | cons token rest =>
    have ends : ¬ (!token.kind.endsLine) = true := by simp [h token rfl]
    exact ⟨List.takeWhile_cons_of_neg ends, List.dropWhile_cons_of_neg ends⟩

theorem line_none (ends : token.kind.endsLine = true) (rest : List Token) :
    lineOf (token :: rest) = [] ∧ afterLine (token :: rest) = token :: rest := by
  obtain ⟨taken, behind⟩ := @line_ended (token :: rest) (by rintro _ ⟨⟩; exact ends)
  exact ⟨congrArg withoutSemicolons taken, behind⟩

namespace Embedding

/-! ## Tokens that correspond -/

/-- The tokens of the part and those of the whole, inside of `depth` levels and perhaps inside a
line. Where the part ends a line by closing levels, or ends itself, line breaks may stand in the
whole. -/
inductive Meets (e : Embedding) : Bool → Nat → List Token → List Token → Prop
  | content {inLine : Bool} {depth : Nat} {token : Token} {rest rest' : List Token}
      (content : token.kind.endsLine = false) (meets : Meets e true depth rest rest') :
      Meets e inLine depth (token :: rest) (token.moved e.move :: rest')
  | newline {inLine : Bool} {depth : Nat} {token : Token} {rest rest' : List Token}
      (kind : token.kind = .newline) (meets : Meets e false depth rest rest') :
      Meets e inLine depth (token :: rest) (token.moved e.move :: rest')
  | indent {inLine : Bool} {depth : Nat} {token : Token} {rest rest' : List Token}
      (kind : token.kind = .indent) (meets : Meets e false (depth + 1) rest rest') :
      Meets e inLine depth (token :: rest) (token.moved e.move :: rest')
  | dedent {inLine : Bool} {depth : Nat} {token token' : Token} {rest rest' : List Token}
      (kind : token.kind = .dedent) (kind' : token'.kind = .dedent)
      (same : e.strict → token' = token.moved e.move) (meets : Meets e false depth rest rest') :
      Meets e inLine (depth + 1) (token :: rest) (token' :: rest')
  | gap {inLine : Bool} {depth : Nat} {token' : Token} {tokens rest' : List Token}
      (lenient : ¬ e.strict) (kind' : token'.kind = .newline)
      (ended : ∀ token ∈ tokens.head?, token.kind = .dedent ∨ token.kind = .endOfInput)
      (meets : Meets e false depth tokens rest') : Meets e inLine depth tokens (token' :: rest')
  | ends {inLine : Bool} {token : Token} (kind : token.kind = .endOfInput)
      (same : e.strict → ∃ beyond, e.more = token.moved e.move :: beyond)
      (ended : inLine = true → ∀ next ∈ e.more.head?, next.kind.endsLine = true) :
      Meets e inLine 0 [token] e.more

variable {e : Embedding}

/-- What is met inside a line is met between lines too. -/
theorem Meets.loosen (h : e.Meets inLine depth tokens tokens') :
    e.Meets false depth tokens tokens' := by
  cases h with
  | content content meets => exact .content content meets
  | newline kind meets => exact .newline kind meets
  | indent kind meets => exact .indent kind meets
  | dedent kind kind' same meets => exact .dedent kind kind' same meets
  | gap lenient kind' ended meets => exact .gap lenient kind' ended meets
  | ends kind same _ => exact .ends kind same (by rintro ⟨⟩)

/-- In a strict embedding, the first token of the whole is that of the part, moved. -/
theorem Meets.firstToken_eq (h : e.Meets inLine depth tokens tokens') (strict : e.strict) :
    firstToken tokens' = (firstToken tokens).moved e.move := by
  cases h with
  | content | newline | indent => rfl
  | dedent _ _ same => exact same strict
  | gap lenient => exact absurd strict lenient
  | ends _ same =>
    obtain ⟨beyond, more⟩ := same strict
    rw [more]
    rfl

/-- A failure at the first of the tokens. -/
theorem Meets.fault (h : e.Meets inLine depth tokens tokens') (strict : e.strict)
    (cause : ParseFault) : (firstToken tokens').fault cause = (firstToken tokens).fault cause := by
  rw [h.firstToken_eq strict]
  exact (firstToken tokens).fault_moved (e.unmoved strict) cause

/-- What stands behind line breaks: the same kind of token in both sources, up to the end of the
part. -/
inductive Faces (e : Embedding) : Nat → List Token → List Token → Prop
  | content {depth : Nat} {token : Token} {rest rest' : List Token}
      (content : token.kind.endsLine = false) (meets : e.Meets true depth rest rest') :
      Faces e depth (token :: rest) (token.moved e.move :: rest')
  | indent {depth : Nat} {token : Token} {rest rest' : List Token} (kind : token.kind = .indent)
      (meets : e.Meets false (depth + 1) rest rest') :
      Faces e depth (token :: rest) (token.moved e.move :: rest')
  | dedent {depth : Nat} {token token' : Token} {rest rest' : List Token}
      (kind : token.kind = .dedent) (kind' : token'.kind = .dedent)
      (same : e.strict → token' = token.moved e.move) (meets : e.Meets false depth rest rest') :
      Faces e (depth + 1) (token :: rest) (token' :: rest')
  | ends {token : Token} (kind : token.kind = .endOfInput)
      (same : e.strict → ∃ beyond, e.more = token.moved e.move :: beyond) :
      Faces e 0 [token] e.more

/-- What stands in the whole behind the part starts with no line break. -/
theorem skipNewlines_more (e : Embedding) : skipNewlines e.more = e.more := by
  cases more : e.more with
  | nil => rfl
  | cons token rest => exact skipNewlines_of_ne (e.starts token (by rw [more]; rfl)).1

theorem Meets.faces (h : e.Meets inLine depth tokens tokens') :
    e.Faces depth (skipNewlines tokens) (skipNewlines tokens') := by
  induction h with
  | @content _ _ token _ _ content meets =>
    have solid : token.kind ≠ .newline := by
      intro kind
      rw [kind] at content
      cases content
    have solid' : (token.moved e.move).kind ≠ .newline := solid
    rw [skipNewlines_of_ne solid, skipNewlines_of_ne solid']
    exact .content content meets
  | @newline _ _ token _ _ kind _ ih =>
    have kind' : (token.moved e.move).kind = .newline := kind
    rw [skipNewlines_newline kind, skipNewlines_newline kind']
    exact ih
  | @indent _ _ token _ _ kind meets =>
    have solid : token.kind ≠ .newline := by simp [kind]
    have solid' : (token.moved e.move).kind ≠ .newline := solid
    rw [skipNewlines_of_ne solid, skipNewlines_of_ne solid']
    exact .indent kind meets
  | dedent kind kind' same meets =>
    rw [skipNewlines_of_ne (by simp [kind]), skipNewlines_of_ne (by simp [kind'])]
    exact .dedent kind kind' same meets
  | gap _ kind' _ _ ih =>
    rw [skipNewlines_newline kind']
    exact ih
  | ends kind same =>
    rw [skipNewlines_of_ne (by simp [kind]), skipNewlines_more]
    exact .ends kind same

theorem Faces.meets (h : e.Faces depth tokens tokens') : e.Meets false depth tokens tokens' := by
  cases h with
  | content content meets => exact .content content meets
  | indent kind meets => exact .indent kind meets
  | dedent kind kind' same meets => exact .dedent kind kind' same meets
  | ends kind same => exact .ends kind same (by rintro ⟨⟩)

/-- Inside a line, the rest of the line is the same in both sources. -/
theorem Meets.restOfLine (h : e.Meets true depth tokens tokens') :
    tokens'.takeWhile (fun token => !token.kind.endsLine) =
        (tokens.takeWhile fun token => !token.kind.endsLine).map (·.moved e.move) ∧
      e.Meets false depth (afterLine tokens) (afterLine tokens') := by
  have ended {depth : Nat} {tokens tokens' : List Token}
      (last : ∀ token ∈ tokens.head?, token.kind.endsLine = true)
      (last' : ∀ token ∈ tokens'.head?, token.kind.endsLine = true)
      (meets : e.Meets true depth tokens tokens') :
      tokens'.takeWhile (fun token => !token.kind.endsLine) =
          (tokens.takeWhile fun token => !token.kind.endsLine).map (·.moved e.move) ∧
        e.Meets false depth (afterLine tokens) (afterLine tokens') := by
    rw [(line_ended last).1, (line_ended last).2, (line_ended last').1, (line_ended last').2]
    exact ⟨rfl, meets.loosen⟩
  have head {kind : Kind} (ends : kind.endsLine = true) {token : Token} {rest : List Token}
      (h : token.kind = kind) : ∀ t ∈ (token :: rest).head?, t.kind.endsLine = true := by
    rintro t ⟨⟩
    rw [h, ends]
  generalize here : true = inLine at h
  induction h with
  | @content _ _ token _ _ content meets ih =>
    obtain ⟨taken, behind⟩ := ih rfl
    have content' : (token.moved e.move).kind.endsLine = false := content
    rw [afterLine_cons content, afterLine_cons content',
      List.takeWhile_cons_of_pos (by simp [content]),
      List.takeWhile_cons_of_pos (by simp [content]), taken]
    exact ⟨rfl, behind⟩
  | newline kind meets => exact ended (head rfl kind) (head rfl kind) (.newline kind meets)
  | indent kind meets => exact ended (head rfl kind) (head rfl kind) (.indent kind meets)
  | dedent kind kind' same meets =>
    exact ended (head rfl kind) (head rfl kind') (.dedent kind kind' same meets)
  | gap lenient kind' last meets =>
    refine ended (fun token ht => ?_) (head rfl kind') (.gap lenient kind' last meets)
    rcases last token ht with kind | kind
    · rw [kind]
      rfl
    · rw [kind]
      rfl
  | ends kind same last =>
    exact ended (head rfl kind) (last here.symm) (.ends kind same fun _ => last here.symm)

/-- A line is the same in both sources, if it is not empty or the embedding is strict. -/
theorem Faces.lineOf_eq (h : e.Faces depth tokens tokens')
    (known : lineOf tokens = [] → e.strict) :
    lineOf tokens' = (lineOf tokens).map (·.moved e.move) ∧
      e.Meets false depth (afterLine tokens) (afterLine tokens') := by
  have meets := h.meets
  cases h with
  | @content _ token rest rest' content inside =>
    obtain ⟨taken, behind⟩ := inside.restOfLine
    have content' : (token.moved e.move).kind.endsLine = false := content
    rw [lineOf_cons content, lineOf_cons content', afterLine_cons content,
      afterLine_cons content', taken, ← List.map_cons, withoutSemicolons_moved]
    exact ⟨rfl, behind⟩
  | @indent _ token rest rest' kind =>
    have kind' : (token.moved e.move).kind = .indent := kind
    obtain ⟨none, here⟩ := line_none (by rw [kind]; rfl) rest
    obtain ⟨none', here'⟩ := line_none (by rw [kind']; rfl) rest'
    rw [none, here, none', here']
    exact ⟨rfl, meets⟩
  | @dedent _ _ _ rest rest' kind kind' =>
    obtain ⟨none, here⟩ := line_none (by rw [kind]; rfl) rest
    obtain ⟨none', here'⟩ := line_none (by rw [kind']; rfl) rest'
    rw [none, here, none', here']
    exact ⟨rfl, meets⟩
  | @ends token kind same =>
    have kind' : (token.moved e.move).kind = .endOfInput := kind
    obtain ⟨none, here⟩ := line_none (by rw [kind]; rfl) []
    obtain ⟨beyond, more⟩ := same (known none)
    obtain ⟨none', here'⟩ := line_none (by rw [kind']; rfl) beyond
    rw [more] at meets ⊢
    rw [none, here, none', here']
    exact ⟨rfl, meets⟩

theorem Meets.blockFollows (h : e.Meets inLine depth tokens tokens') :
    blockFollows tokens' = blockFollows tokens := by
  unfold StylusToScss.blockFollows
  have faces := h.faces
  generalize StylusToScss.skipNewlines tokens = text at faces ⊢
  generalize StylusToScss.skipNewlines tokens' = text' at faces ⊢
  cases faces with
  | content | indent => rfl
  | dedent kind kind' => simp [firstToken, kind, kind']
  | @ends token kind =>
    have here : (firstToken [token]).kind = .endOfInput := kind
    rw [here]
    cases more : e.more with
    | nil => rfl
    | cons token rest =>
      have other := (e.starts token (by rw [more]; rfl)).2.1
      simpa [firstToken] using other

/-- Behind a level that is skipped, the tokens correspond again. -/
theorem Meets.afterLevels {n total : Nat} (h : e.Meets inLine total tokens tokens')
    (open_ : total = depth + (n + 1)) :
    e.Meets false depth (afterLevels (n + 1) tokens) (afterLevels (n + 1) tokens') := by
  induction h generalizing n with
  | @content _ _ token rest rest' content _ ih =>
    have skip {token : Token} {rest : List Token} (content : token.kind.endsLine = false) :
        StylusToScss.afterLevels (n + 1) (token :: rest) =
          StylusToScss.afterLevels (n + 1) rest := by
      obtain ⟨kind, span⟩ := token
      cases kind <;> first | rfl | cases content
    have content' : (token.moved e.move).kind.endsLine = false := content
    rw [skip content, skip content']
    exact ih open_
  | @newline _ _ token rest rest' kind _ ih =>
    obtain ⟨_, span⟩ := token
    cases kind
    exact ih open_
  | @indent _ _ token rest rest' kind _ ih =>
    obtain ⟨_, span⟩ := token
    cases kind
    exact ih (by omega)
  | @dedent _ _ token token' rest rest' kind kind' _ meets ih =>
    obtain ⟨_, span⟩ := token
    obtain ⟨_, span'⟩ := token'
    cases kind
    cases kind'
    cases n with
    | zero =>
      cases open_
      exact meets
    | succ n => exact ih (by omega)
  | @gap _ _ token' tokens rest' _ kind' _ _ ih =>
    obtain ⟨_, span'⟩ := token'
    cases kind'
    exact ih open_
  | ends => omega

theorem Meets.afterBlock (h : e.Meets inLine depth tokens tokens') :
    e.Meets false depth (afterBlock tokens) (afterBlock tokens') := by
  unfold StylusToScss.afterBlock
  rw [h.blockFollows]
  unfold StylusToScss.blockFollows
  have faces := h.faces
  generalize StylusToScss.skipNewlines tokens = text at faces ⊢
  generalize StylusToScss.skipNewlines tokens' = text' at faces ⊢
  split
  · next follows =>
    have kind := beq_iff_eq.1 follows
    cases faces with
    | indent _ meets => exact meets.afterLevels rfl
    | @content _ token _ _ content =>
      have kind : token.kind = .indent := kind
      rw [kind] at content
      cases content
    | dedent kind' => cases kind'.symm.trans kind
    | ends kind' => cases kind'.symm.trans kind
  · exact h.loosen

/-! ## Texts that are the same -/

/-- The texts that are cut out of the part are cut out of the whole too. -/
def Clear (e : Embedding) (continued : Bool) (tokens : List Token) : Prop :=
  ∀ piece ∈ sourceTexts continued tokens, e.SameText piece

namespace Clear

variable {continued : Bool}

theorem skipNewlines (h : e.Clear continued tokens) :
    e.Clear continued (skipNewlines tokens) := by
  rwa [Clear, sourceTexts_skipNewlines]

theorem of_skipNewlines {next : List Token} (h : e.Clear continued tokens)
    (skipped : StylusToScss.skipNewlines tokens = next) : e.Clear continued next :=
  skipped ▸ h.skipNewlines

theorem tail (h : e.Clear continued (token :: rest)) (ends : token.kind.endsLine = true)
    (more : token.kind ≠ .endOfInput) : e.Clear continued rest := by
  rwa [Clear, sourceTexts_of_endsLine continued ends more] at h

theorem semicolons (h : e.Clear continued (token :: rest)) (content : token.kind.endsLine = false)
    (here : lineOf (token :: rest) = []) : e.Clear continued (afterLine rest) := by
  rwa [Clear, sourceTexts_semicolons content here] at h

/-- The texts of a line and those of what stands behind it. -/
theorem start (h : e.Clear false (token :: rest)) (content : token.kind.endsLine = false)
    (here : lineOf (token :: rest) = first :: line) :
    (∀ piece ∈ lineTexts first line (afterLine rest), e.SameText piece) ∧
      e.Clear (selects first line (afterLine rest) && endsWithComma (first :: line))
        (pastRule first (afterLine rest)) := by
  rw [Clear, sourceTexts_line content here] at h
  exact ⟨fun piece hp => h piece (List.mem_append_left _ hp),
    fun piece hp => h piece (List.mem_append_right _ hp)⟩

theorem further (h : e.Clear true tokens) (here : lineOf tokens ≠ []) :
    e.SameText (lineOf tokens) ∧ e.Clear (endsWithComma (lineOf tokens)) (afterLine tokens) := by
  rw [Clear, sourceTexts_continued here] at h
  exact ⟨h _ (.head _), fun piece hp => h piece (.tail _ hp)⟩

end Clear

end Embedding
end StylusToScss
