import StylusToScss.Proofs.Statement.Joined
import StylusToScss.Proofs.Statement.LineNumbers
import StylusToScss.Proofs.Token.Adjacent
import StylusToScss.Proofs.Token.Quotes
import StylusToScss.Scss.Conversion
import StylusToScss.Scss.Emitter

/-!
# Imports of quoted paths

The strings behind the word of an import are the pieces of one path. Each of them stands in quotes
of its own, but the path is written in those of the first one. So the path is one string again
exactly if no other piece holds that quote bare, which only a piece in quotes of the other kind can
(`importLine_converted`).

* `tokenize_importText_iff`: an import is cut into its word, one string and a semicolon exactly if
  its path can stand between the quotes.
* `ImportLine.readStatement`, `ImportLine.convert`: a line of strings is read as one import.
-/

namespace StylusToScss

variable {source : String} {first : Token} {rest : List Token} {quote : Char}

/-! ## The text of an import -/

/-- An import of the path that these values make up, in one pair of quotes. -/
def importText (quote : Char) (values : List String) : String :=
  "@import " ++ (String.singleton quote ++ String.join values ++ String.singleton quote) ++ ";"

theorem toList_importText (quote : Char) (values : List String) :
    (importText quote values).toList = "@import".toList ++ ' ' :: quote ::
      ((String.join values).toList ++ quote :: [';']) := by
  simp [importText]

theorem at_import (behind : List Char) : Lexeme.At none ("@import".toList ++ ' ' :: behind)
    ⟨.atWord "import", "@import".toList, by decide⟩ :=
  Lexeme.at_of_lexeme (by decide) rfl

/-- The word and the blank behind it are cut off first, whatever follows. -/
theorem cuts_import (behind : List Char) : Cuts none ("@import".toList ++ ' ' :: behind)
    [.atWord "import"] (some ' ') behind :=
  .lexeme (at_import behind) (.blank .nil)

theorem solid_of_isQuote (isQuote : quote = '"' ∨ quote = '\'') :
    quote ∉ [' ', '\t', '\n', '\r', '/'] := by
  rcases isQuote with rfl | rfl <;> decide

/-- A string and a semicolon that ends the text. -/
theorem cuts_string (isQuote : quote = '"' ∨ quote = '\'') {value : List Char}
    (h : Enclosed quote value) (previous : Option Char) :
    Cuts previous (quote :: (value ++ quote :: [';']))
      [.string (String.ofList value) quote, .semicolon] (some ';') [] := by
  have read : lexeme previous quote (value ++ quote :: [';']) =
      .ok ⟨.string (String.ofList value) quote, quote :: value ++ [quote], by simp⟩ := by
    unfold lexeme
    rw [if_pos isQuote, Lexeme.string, Lexeme.stringValue_of_enclosed isQuote h]
  have here := Lexeme.at_of_lexeme (solid_of_isQuote isQuote) read
  have spelled : quote :: (value ++ quote :: [';']) = quote :: value ++ [quote] ++ [';'] := by simp
  rw [spelled] at here ⊢
  exact .lexeme here (.mark (Lexeme.at_of_lexeme (by decide) rfl) .nil)

/-- An import is cut into its word, one string and a semicolon exactly if its path can stand between
the quotes. -/
theorem tokenize_importText_iff (isQuote : quote = '"' ∨ quote = '\'') (values : List String) :
    (∃ tokens mark, tokenize (importText quote values) = .ok tokens ∧
      tokens.map (·.kind) =
        [.atWord "import", .string (String.join values) mark, .semicolon, .endOfInput]) ↔
      Enclosed quote (String.join values).toList := by
  have text := String.ofList_toList (s := importText quote values)
  rw [toList_importText] at text
  rw [← text]
  generalize String.join values = path
  constructor
  · rintro ⟨tokens, mark, cut, kinds⟩
    obtain ⟨start, stepped, inside⟩ := Scan.step_start (c := '@')
      ("import".toList ++ ' ' :: quote :: (path.toList ++ quote :: [';'])) (by decide)
    obtain ⟨before, scan, comes, inside, word⟩ :=
      (Scan.Comes.start.step rfl stepped).of_cuts (cuts_import _) inside
    obtain ⟨item, token, more, read, same, rfl⟩ :=
      comes.exists_lexeme inside (solid_of_isQuote isQuote) cut
    rw [List.nil_append, List.nil_append, List.map_append, word] at kinds
    have kind : item.kind = .string path mark :=
      same.symm.trans (List.cons.inj (List.cons.inj kinds).2).1
    obtain ⟨rfl, -, value⟩ := stringValue_of_lexeme read kind
    exact Lexeme.enclosed_of_stringValue value
  · intro h
    have cuts := (cuts_import _).append (cuts_string isQuote h (some ' '))
    obtain ⟨tokens, final, cut, kinds, ends⟩ := tokenize_of_cuts (c := '@') cuts (by decide)
    refine ⟨tokens ++ [final], quote, cut, ?_⟩
    rw [List.map_append, kinds, List.map_singleton, ends, String.ofList_toList]
    rfl

/-! ## Lines of an import -/

/-- A line of an import: behind its word there are strings with these values and quotes and nothing
else, but for semicolons at the end. -/
structure ImportLine (first : Token) (rest : List Token) (pieces : List (String × Char)) :
    Prop where
  word : first.kind = .atWord "import" ∨ first.kind = .atWord "require"
  strings : (lineOf (first :: rest)).tail.map (·.kind) =
    pieces.map fun piece => .string piece.1 piece.2

/-- The path that these strings make up. -/
def quotedPath (pieces : List (String × Char)) (line : Nat) : List Literal :=
  pieces.map fun piece => ⟨piece.1, some piece.2, line⟩

theorem stringLiterals?_of_strings {tokens : List Token} {pieces : List (String × Char)}
    (strings : tokens.map (·.kind) = pieces.map fun piece => .string piece.1 piece.2)
    (line : Nat) : stringLiterals? tokens line = some (quotedPath pieces line) := by
  induction tokens generalizing pieces with
  | nil =>
    cases pieces with
    | nil => rfl
    | cons piece more => cases strings
  | cons token tokens ih =>
    cases pieces with
    | nil => cases strings
    | cons piece more =>
      obtain ⟨kind, span⟩ := token
      obtain ⟨rfl, behind⟩ := List.cons.inj strings
      have rest := ih behind
      unfold stringLiterals? at rest ⊢
      rw [List.mapM_cons, rest]
      rfl

/-- Strings behind the word are the path of an import. -/
theorem readImport_of_strings {tokens : List Token} {piece : String × Char}
    {more : List (String × Char)}
    (strings : tokens.map (·.kind) = (piece :: more).map fun piece => .string piece.1 piece.2)
    (first : Token) (line : Nat) : readImport source first tokens line =
      .ok (.importRule (quotedPath (piece :: more) line) line) := by
  have some : tokens.isEmpty = false := by
    cases tokens with
    | nil => cases strings
    | cons => rfl
  rw [readImport, some, if_neg Bool.false_ne_true, stringLiterals?_of_strings strings]

namespace ImportLine

variable {piece : String × Char} {more : List (String × Char)}

theorem content (h : ImportLine first rest (piece :: more)) : first.kind.endsLine = false := by
  rcases h.word with kind | kind <;> rw [kind] <;> rfl

/-- The line is one statement, and reading it never fails. -/
theorem readStatement (h : ImportLine first rest (piece :: more)) (source : String) :
    ∃ taken, readStatement source first rest = .ok taken ∧ taken.rest = afterLine rest ∧
      taken.value = some (.importRule (quotedPath (piece :: more) first.span.line)
        first.span.line) := by
  obtain ⟨word, kind, isImport⟩ : ∃ word, first.kind = .atWord word ∧
      (word = "import" ∨ word = "require") := by
    rcases h.word with kind | kind
    · exact ⟨_, kind, .inl rfl⟩
    · exact ⟨_, kind, .inr rfl⟩
  have plain : first.kind ≠ .semicolon := by
    rw [kind]
    rintro ⟨⟩
  have strings := h.strings
  rw [lineOf_cons h.content, withoutSemicolons_cons _ plain, List.tail_cons] at strings
  have node : readNode source first (withoutSemicolons (rest.takeWhile fun token =>
      !token.kind.endsLine)) (afterLine rest) = .ok (.nothing
        (.importRule (quotedPath (piece :: more) first.span.line) first.span.line)) := by
    unfold readNode
    simp only [kind]
    rw [if_pos isImport, readImport_of_strings strings]
    rfl
  unfold StylusToScss.readStatement
  rw [withoutSemicolons_cons _ plain]
  simp only
  rw [node]
  exact ⟨_, rfl, rfl, rfl⟩

end ImportLine

theorem values_quotedPath (pieces : List (String × Char)) (line : Nat) :
    (quotedPath pieces line).map (·.value) = pieces.map Prod.fst := by
  rw [quotedPath, List.map_map]
  rfl

/-- A path of strings is rendered in the quotes of the first one. -/
theorem Emit.runFrom_importRule (piece : String × Char) (more : List (String × Char)) (line : Nat)
    (emitter : Emitter) :
    (Emit.visit (.importRule (quotedPath (piece :: more) line) line)).runFrom emitter =
      (.ok ((Mark.statement line).written emitter.layout ++
          importText piece.2 ((piece :: more).map Prod.fst)),
        { emitter with layout := (Mark.statement line).after emitter.layout }) := by
  rw [← values_quotedPath (piece :: more) line, importText, ← String.append_assoc,
    ← String.append_assoc]
  rfl

/-- Where it is the whole tree, an import is all of the output, but for the lines above it. -/
theorem convert_importRule (piece : String × Char) (more : List (String × Char)) (line : Nat)
    (options : Options) :
    Stylesheet.convert options ⟨[.importRule (quotedPath (piece :: more) line) line]⟩ =
      .ok ⟨Layout.lineFeeds (line - 1) ++ importText piece.2 ((piece :: more).map Prod.fst),
        []⟩ := by
  have lead : (Mark.statement line).written .start = Layout.lineFeeds (line - 1) := by
    have none : Layout.indentation 0 = "" := rfl
    show Layout.lineFeeds (max (line - 1) 0) ++ Layout.indentation 0 = _
    rw [Nat.max_zero, none, String.append_empty]
  rw [← values_quotedPath (piece :: more) line, importText, ← lead]
  show Except.ok (Converted.mk (String.join [_, _]) []) = _
  rw [String.join_cons, String.join_cons, String.join_nil, String.append_empty]
  rfl

/-- Behind the last line there is nothing to read. -/
theorem readStatements_of_ended (source : String) {tokens : List Token}
    (ended : ∀ token ∈ tokens, token.kind = .newline ∨ token.kind = .endOfInput) :
    readStatements source tokens = .ok [] := by
  cases here : skipNewlines tokens with
  | nil => rw [readStatements_eq, here]
  | cons token rest =>
    have mem : token ∈ tokens := (skipNewlines_suffix tokens).subset (here ▸ List.mem_cons_self)
    exact readStatements_ends here ((ended token mem).resolve_left (kind_of_skipNewlines here))

/-- A source of one such line is accepted and converted. -/
theorem ImportLine.convert {piece : String × Char} {more : List (String × Char)}
    {before : List Token} (h : ImportLine first rest (piece :: more))
    (cut : tokenize source = .ok (before ++ first :: rest))
    (above : ∀ token ∈ before, token.kind = .newline)
    (below : ∀ token ∈ afterLine rest, token.kind = .newline ∨ token.kind = .endOfInput)
    (options : Options) : convert options source =
      .ok ⟨Layout.lineFeeds (first.span.line - 1) ++
        importText piece.2 ((piece :: more).map Prod.fst), []⟩ := by
  obtain ⟨taken, read, left, value⟩ := h.readStatement source
  have here : skipNewlines (before ++ first :: rest) = first :: rest := by
    rw [skipNewlines_append above, skipNewlines_of_ne]
    intro newline
    have content := h.content
    rw [newline] at content
    cases content
  have statements : readStatements source (before ++ first :: rest) =
      .ok [.importRule (quotedPath (piece :: more) first.span.line) first.span.line] := by
    rw [readStatements_content here h.content, read, ok_bind, left,
      readStatements_of_ended source below, value]
    rfl
  unfold StylusToScss.convert Stylesheet.ofSource
  rw [cut]
  simp only
  rw [Stylesheet.ofTokens, statements]
  exact convert_importRule piece more _ options

/-- The values of the strings of such a line can stand between their own quotes. -/
theorem ImportLine.enclosed {pieces : List (String × Char)} {before : List Token}
    (h : ImportLine first rest pieces) (cut : tokenize source = .ok (before ++ first :: rest)) :
    ∀ piece ∈ pieces, (piece.2 = '"' ∨ piece.2 = '\'') ∧ Enclosed piece.2 piece.1.toList := by
  intro piece mem
  have here := List.mem_map_of_mem (f := fun piece => Kind.string piece.1 piece.2) mem
  rw [← h.strings] at here
  obtain ⟨token, mem, kind⟩ := List.mem_map.1 here
  have mem := (lineOf_isPrefix _).subset (List.mem_of_mem_tail mem)
  exact enclosed_of_tokenize cut (List.mem_append_right before mem) kind

/-- What becomes of a line of an import whose path is written in strings. Wherever it stands, the
line is read as one import, which is rendered behind the lead of its statement; where it is the
whole source, this is all of the output. The text of the import is cut into its word, one string
with the values of all strings of the source in a row, and a semicolon, exactly if no string behind
the first one holds the quote of the first one bare. -/
theorem importLine_converted {before : List Token} {piece : String × Char}
    {more : List (String × Char)} (cut : tokenize source = .ok (before ++ first :: rest))
    (line : ImportLine first rest (piece :: more)) :
    (∃ taken path, readStatement source first rest = .ok taken ∧ taken.rest = afterLine rest ∧
      taken.value = some (.importRule path first.span.line) ∧
      ∀ emitter, ((Emit.visit (.importRule path first.span.line)).runFrom emitter).1 =
        .ok ((Mark.statement first.span.line).written emitter.layout ++
          importText piece.2 ((piece :: more).map Prod.fst))) ∧
    ((∀ token ∈ before, token.kind = .newline) →
      (∀ token ∈ afterLine rest, token.kind = .newline ∨ token.kind = .endOfInput) →
      ∀ options, convert options source = .ok ⟨Layout.lineFeeds (first.span.line - 1) ++
        importText piece.2 ((piece :: more).map Prod.fst), []⟩) ∧
    ((∃ tokens quote, tokenize (importText piece.2 ((piece :: more).map Prod.fst)) = .ok tokens ∧
        tokens.map (·.kind) = [.atWord "import",
          .string (String.join ((piece :: more).map Prod.fst)) quote, .semicolon, .endOfInput]) ↔
      ∀ other ∈ more, ¬ HoldsBare piece.2 other.1.toList) := by
  refine ⟨?_, line.convert cut, ?_⟩
  · obtain ⟨taken, read, left, value⟩ := line.readStatement source
    refine ⟨taken, _, read, left, value, fun emitter => ?_⟩
    rw [Emit.runFrom_importRule]
  · have complete := line.enclosed cut
    obtain ⟨isQuote, whole⟩ := complete piece (.head _)
    rw [tokenize_importText_iff isQuote, String.toList_join, List.flatMap, enclosed_flatten_iff,
      List.map_map, List.forall_mem_map, List.forall_mem_cons]
    · constructor
      · intro h other mem
        exact (enclosed_iff isQuote (complete other (.tail _ mem)).2).1 (h.2 other mem)
      · intro bare
        refine ⟨whole, fun other mem => ?_⟩
        exact (enclosed_iff isQuote (complete other (.tail _ mem)).2).2 (bare other mem)
    · rw [List.map_map]
      intro text mem
      obtain ⟨other, here, rfl⟩ := List.mem_map.1 mem
      exact ⟨_, (complete other here).2⟩

/-- A quote that nothing needed to escape between quotes of the other kind ends the string early. -/
theorem importLine_converted_mixed :
    (∀ options, convert options "@import 'a' \"b'c\"" = .ok ⟨"@import 'ab'c';", []⟩) ∧
    ¬ ∃ tokens quote, tokenize "@import 'ab'c';" = .ok tokens ∧
      tokens.map (·.kind) = [.atWord "import", .string "ab'c" quote, .semicolon, .endOfInput] := by
  have cut : tokenize "@import 'a' \"b'c\"" = .ok ([] ++ ⟨.atWord "import", ⟨0, 7, 1, 1⟩⟩ ::
      [⟨.string "a" '\'', ⟨8, 11, 1, 9⟩⟩, ⟨.string "b'c" '"', ⟨12, 17, 1, 13⟩⟩,
        ⟨.endOfInput, ⟨17, 17, 1, 18⟩⟩]) := by
    decide +kernel
  have line : ImportLine ⟨.atWord "import", ⟨0, 7, 1, 1⟩⟩ [⟨.string "a" '\'', ⟨8, 11, 1, 9⟩⟩,
      ⟨.string "b'c" '"', ⟨12, 17, 1, 13⟩⟩, ⟨.endOfInput, ⟨17, 17, 1, 18⟩⟩]
      [("a", '\''), ("b'c", '"')] :=
    ⟨.inl rfl, rfl⟩
  obtain ⟨-, converted, whole⟩ := importLine_converted cut line
  refine ⟨converted nofun (by decide), fun h => ?_⟩
  refine whole.1 h _ (.head _) ?_
  exact .char (by decide) .here

end StylusToScss
