import StylusToScss.Interpolation
import StylusToScss.Statement.Line
import StylusToScss.Token.Stream
import StylusToScss.Value.OfTokens

/-!
# Reading statements

A statement is a logical line, or a line with the indented block below it. The first tokens of a
line, and whether a block follows, decide what it is. Where a line holds nothing but semicolons
there is no statement.

* `readStatement` reads one statement, `readBlock` the block below a line, `readAlternatives` the
  `else` lines behind the block of a conditional.
* `Stylesheet.ofSource` reads a whole source text.
-/

namespace StylusToScss

/-! ## Parts of a line -/

/-- The source text from the first to the last of the tokens. -/
def rawText (source : String) (tokens : List Token) : Read String :=
  match tokens.head?, tokens.getLast? with
  | some first, some last =>
    match slice? source first.span.start last.span.stop with
    | some text => .ok text
    | none => outOfRange
  | _, _ => .ok ""

/-- The value that the tokens write. Where there is none, the failure is reported at the anchor. -/
def valueOf (tokens : List Token) (anchor : Token) (line : Nat) : Read Expression :=
  if tokens.isEmpty then .error (anchor.fault .valueExpected) else Expression.ofTokens tokens line

/-- The string literals that all of the tokens are. -/
def stringLiterals? (tokens : List Token) (line : Nat) : Option (List Literal) :=
  tokens.mapM fun token =>
    match token.kind with
    | .string value quote => some ⟨value, some quote, line⟩
    | _ => none

/-- An import: quoted paths, or one path as it is written. -/
def readImport (source : String) (first : Token) (rest : List Token) (line : Nat) : Read Node :=
  if rest.isEmpty then .error (first.fault .pathExpected)
  else
    match stringLiterals? rest line with
    | some path => .ok (.importRule path line)
    | none => do return .importRule [⟨← rawText source rest, none, line⟩] line

/-- An expression of one operand stands for the operand. -/
def Expression.collapsed (expression : Expression) : Node :=
  match expression.nodes with
  | [node] =>
    if expression.isList || expression.parenthesized then .expression expression else node
  | _ => .expression expression

/-- The condition after `if` or `unless`, which negates it. -/
def readCondition (keyword : Token) (rest : List Token) : Read Node := do
  let line := keyword.span.line
  let condition ← valueOf rest keyword line
  if keyword.kind.isWord "unless" then return .unary "!" condition.collapsed line
  else return condition.collapsed

/-- What a loop binds, and its source. -/
structure LoopHead where
  item : String
  key : Option String
  source : Expression

/-- The key of a loop, if a comma announces one, and the tokens behind it. -/
def readLoopKey : List Token → Read (Option String × List Token)
  | ⟨.comma, span⟩ :: rest =>
    match rest with
    | ⟨.ident key, _⟩ :: rest => .ok (some key, rest)
    | _ => .error (Token.fault ⟨.comma, span⟩ .loopKeyExpected)
  | tokens => .ok (none, tokens)

/-- The line of a loop behind its `for`. -/
def readLoopHead (first : Token) (rest : List Token) (line : Nat) : Read LoopHead :=
  match rest with
  | ⟨.ident item, _⟩ :: rest => do
    let (key, rest) ← readLoopKey rest
    match rest with
    | ⟨.ident "in", span⟩ :: rest =>
      return ⟨item, key, ← valueOf rest ⟨.ident "in", span⟩ line⟩
    | _ => .error (first.fault .loopInExpected)
  | _ => .error (first.fault .loopVariableExpected)

/-- An assignment behind its name and operator. A conditional one marks the value as a default. -/
def readAssignment (name : String) (op : Token) (rest : List Token) (line : Nat) : Read Node := do
  let value ← valueOf rest op line
  let nodes := if op.kind == .conditionalAssign then value.nodes ++ [.plain "!default" line]
    else value.nodes
  return .bound name (.expression { value with nodes := nodes }) line

/-- One parameter of a definition: a name, a name for all that are left, or a name with a default.
-/
def readParameter (line : Nat) : List Token → Read Node
  | [] => .error ⟨.emptyParameter, line, 1⟩
  | [⟨.ident name, _⟩] => .ok (.name name line)
  | [⟨.ident name, _⟩, ⟨.dotDotDot, _⟩] => .ok (.name (name ++ "...") line)
  | ⟨.ident name, _⟩ :: ⟨.assign, span⟩ :: rest => do
    let value ← valueOf rest ⟨.assign, span⟩ line
    return .bound name (.expression value) line
  | token :: _ => .error (token.fault .invalidParameter)

/-- The parameters between the parentheses of a definition. -/
def readParameters (tokens : List Token) (line : Nat) : Read Arguments :=
  if tokens.isEmpty then .ok ⟨[], line⟩
  else do return ⟨← (commaPieces 0 tokens).mapM (readParameter line), line⟩

/-- The selectors of one line. -/
def readSelectorLine (source : String) (tokens : List Token) : Read (List Selector) := do
  let first ← tokenAt tokens 0
  let text ← rawText source tokens
  (splitSelectors text.toList).mapM fun text => do
    return ⟨← splitSegments text first.span.line first.span.column, first.span.line⟩

/-- A property of which the tokens of the name and of the value are known. -/
def propertyOf (source : String) (name value : List Token) (anchor : Token) (line : Nat) :
    Read Node := do
  let text ← rawText source name
  let first ← tokenAt name 0
  let segments ← splitSegments text.toList line first.span.column
  return .property segments (← valueOf value anchor line) line

/-- A line that is an expression. -/
def readExpression (tokens : List Token) (first : Token) (line : Nat) : Read Node := do
  return .expression (← valueOf tokens first line)

/-- A property with a colon at an index of its line. -/
def readColonProperty (source : String) (tokens : List Token) (colon line : Nat) : Read Node := do
  let anchor ← tokenAt tokens colon
  let name ← tokensBetween tokens 0 colon
  let value ← tokensBetween tokens (colon + 1) tokens.length
  if value.isEmpty then
    let text ← rawText source name
    .error (anchor.fault (.propertyValueExpected text))
  else propertyOf source name value anchor line

/-- A property whose name is the first run of its line. -/
def readBlankProperty (source : String) (tokens : List Token) (run line : Nat) : Read Node := do
  let name ← tokensBetween tokens 0 run
  let value ← tokensBetween tokens run tokens.length
  propertyOf source name value (← tokenAt tokens (run - 1)) line

/-- A property, with a colon in the first run of its line or a blank behind the run; or an
expression, where the line cannot be divided into a name and a value. -/
def readProperty (source : String) (tokens : List Token) (line : Nat) : Read Node := do
  let first ← tokenAt tokens 0
  let run := touchingRun tokens
  match (tokens.take run).findIdx? fun token => token.kind == .colon with
  | some colon =>
    if colon = 0 then .error (first.fault .propertyNameExpected)
    else readColonProperty source tokens colon line
  | none =>
    if run = tokens.length || startsExpression first.kind then readExpression tokens first line
    else if ← continuesExpression tokens run then readExpression tokens first line
    else readBlankProperty source tokens run line

/-- The line break between two selector lines. -/
def readLineBreak (tokens : List Token) : ReadResult 1 Unit tokens :=
  match tokens with
  | ⟨.newline, _⟩ :: _ => .ok (.first ())
  | other => .error ((firstToken other).fault .selectorExpected)

/-! ## Statements -/

/-- The name of a line that has the form of a definition: a name, and parentheses that touch it and
end the line. -/
def definitionName? : List Token → Option String
  | name :: openParen :: rest =>
    match name.kind with
    | .ident word =>
      if openParen.kind == .leftParen && name.touches openParen &&
          closingParen? 0 (openParen :: rest) == some rest.length then some word
      else none
    | _ => none
  | _ => none

/-- Whether a line starts with a name and a parenthesis that touches it. -/
def startsCall : List Token → Bool
  | name :: openParen :: _ =>
    name.kind matches .ident _ && openParen.kind == .leftParen && name.touches openParen
  | _ => false

mutual

/-- The statements of a block, up to the end of its level. -/
def readBody (source : String) (tokens : List Token) : ReadResult 0 (List Node) tokens :=
  match _h : skipNewlines tokens with
  | [] => .ok ((Taken.nothing []).ofSkipped _h)
  | token :: rest =>
    match token.kind with
    | .endOfInput => .ok ((Taken.nothing []).ofSkipped _h)
    | .indent => .error (token.fault .unexpectedIndentation)
    | .dedent => .ok ((Taken.first []).loose.ofSkipped _h)
    | _ => do
      let statement ← readStatement source token rest
      let more ← readBody source statement.rest
      let nodes := statement.andThen more fun node nodes => node.toList ++ nodes
      return nodes.behind.loose.ofSkipped _h
termination_by 16 * tokens.length + 9
decreasing_by
  all_goals have := length_of_skipNewlines _h
  · omega
  · have := statement.rest_le
    omega

/-- The block below a line. -/
def readBlock (source : String) (line : Nat) (tokens : List Token) : ReadResult 1 Block tokens :=
  match _h : skipNewlines tokens with
  | [] => .error (absentToken.fault .blockExpected)
  | token :: rest =>
    if token.kind == .indent then do
      let body ← readBody source rest
      return (body.map fun nodes => ⟨nodes, line⟩).behind.ofSkipped _h
    else .error (token.fault .blockExpected)
termination_by 16 * tokens.length + 1
decreasing_by
  have := length_of_skipNewlines _h
  omega

/-- The statement that starts with `first`, which ends no line. -/
def readStatement (source : String) (first : Token) (rest : List Token) :
    ReadResult 0 (Option Node) rest :=
  match withoutSemicolons (first :: rest.takeWhile fun token => !token.kind.endsLine) with
  | [] => .ok (.pastLine none)
  | start :: line => do
    let node ← readNode source start line (afterLine rest)
    return (Taken.pastLine ()).after (node.map some)
termination_by 16 * rest.length + (16 + 8)
decreasing_by
  have := length_afterLine rest
  omega

/-- The node of a line, `first` and the tokens behind it, with what belongs to it of the tokens
after the line. -/
def readNode (source : String) (first : Token) (line after : List Token) :
    ReadResult 0 Node after :=
  let number := first.span.line
  match first.kind with
  | .atWord word =>
    if word = "import" ∨ word = "require" then do
      return .nothing (← readImport source first line number)
    else .ok (.pastBlock (.unsupported ("@" ++ word) number))
  | .ident "if" => readConditional source first line after
  | .ident "unless" => readConditional source first line after
  | .ident "else" => .error (first.fault .strayElse)
  | .ident "for" => do
    let head ← readLoopHead first line number
    let block ← readBlock source number after
    return (block.map fun b => .loop head.item head.key head.source b number).loose
  | .ident "return" => do
    return .nothing (.expression (← valueOf line first number))
  | _ => readDeclaration source first line after
termination_by 16 * after.length + 7

/-- A conditional with its alternatives. -/
def readConditional (source : String) (keyword : Token) (line after : List Token) :
    ReadResult 0 Node after := do
  let number := keyword.span.line
  let condition ← readCondition keyword line
  let block ← readBlock source number after
  let alternatives ← readAlternatives source block.rest
  return (block.andThen alternatives fun b more => .conditional condition b more number).loose
termination_by 16 * after.length + 6
decreasing_by
  · omega
  · have := block.rest_lt
    omega

/-- The `else` lines that follow, each with its block, up to the first one without a condition. -/
def readAlternatives (source : String) (tokens : List Token) : ReadResult 0 (List Node) tokens :=
  match _h : skipNewlines tokens with
  | [] => .ok (.nothing [])
  | word :: rest =>
    if word.kind.isWord "else" then do
      let clause := withoutSemicolons (word :: rest.takeWhile fun t => !t.kind.endsLine)
      let head ← tokenAt clause 0
      let number := head.span.line
      match clause.drop 1 with
      | [] => do
        let block ← readBlock source number (afterLine rest)
        let clause := (Taken.pastLine ()).after (block.map fun b => [.block b])
        return clause.behind.loose.ofSkipped _h
      | keyword :: line =>
        if keyword.kind.isWord "if" || keyword.kind.isWord "unless" then do
          let condition ← readCondition keyword line
          let block ← readBlock source number (afterLine rest)
          let more ← readAlternatives source block.rest
          let clauses := block.andThen more fun b clauses =>
            .conditional condition b [] number :: clauses
          return ((Taken.pastLine ()).after clauses).behind.loose.ofSkipped _h
        else .error (keyword.fault .malformedElse)
    else .ok (.nothing [])
termination_by 16 * tokens.length + 5
decreasing_by
  all_goals
    have := length_afterLine rest
    have := length_of_skipNewlines _h
  · omega
  · omega
  · have := block.rest_lt
    omega

/-- A line that starts with no keyword: an assignment, a definition, a call, the selectors of a
group, or a property. -/
def readDeclaration (source : String) (first : Token) (line after : List Token) :
    ReadResult 0 Node after :=
  let number := first.span.line
  let tokens := first :: line
  match first.kind, line with
  | .ident name, ⟨.assign, span⟩ :: value => do
    return .nothing (← readAssignment name ⟨.assign, span⟩ value number)
  | .ident name, ⟨.conditionalAssign, span⟩ :: value => do
    return .nothing (← readAssignment name ⟨.conditionalAssign, span⟩ value number)
  | _, _ =>
    if blockFollows after then
      match definitionName? tokens with
      | some name => do
        let inside ← tokensBetween tokens 2 (tokens.length - 1)
        let params ← readParameters inside number
        let block ← readBlock source number after
        return (block.map fun b => .definition name params b number).loose
      | none => readGroup source number tokens after
    else if startsCall tokens then do
      return .nothing (← readExpression tokens first number)
    else if endsWithComma tokens then readGroup source number tokens after
    else do
      return .nothing (← readProperty source tokens number)
termination_by 16 * after.length + 4

/-- A group: its selector lines, of which the first has been cut off, and its block. -/
def readGroup (source : String) (number : Nat) (line after : List Token) :
    ReadResult 0 Node after := do
  let selectors ← readSelectors source line after
  let block ← readBlock source number selectors.rest
  return selectors.andThen block fun s b => .group s b
termination_by 16 * after.length + 3
decreasing_by
  have := selectors.rest_le
  omega

/-- The selectors of a line, and of the lines that follow as long as one ends with a comma. -/
def readSelectors (source : String) (line after : List Token) :
    ReadResult 0 (List Selector) after := do
  let selectors ← readSelectorLine source line
  if endsWithComma line then
    let gap ← readLineBreak after
    let next := skipNewlines gap.rest
    if lineOf next = [] then .error ((firstToken (afterLine next)).fault .selectorExpected)
    else
      let more ← readSelectors source (lineOf next) (afterLine next)
      let others : Taken 0 (List Selector) next := (Taken.pastLine ()).after more
      return (gap.after (others.map fun others => selectors ++ others).behindNewlines).loose
  else return .nothing selectors
termination_by 16 * after.length + 2
decreasing_by
  have := length_afterLine (skipNewlines gap.rest)
  have := length_skipNewlines gap.rest
  have := gap.rest_lt
  omega

end

/-- The statements up to the end of the tokens. -/
def readStatements (source : String) (tokens : List Token) : Read (List Node) :=
  match _h : skipNewlines tokens with
  | [] => .ok []
  | token :: rest =>
    match token.kind with
    | .endOfInput => .ok []
    | .indent => .error (token.fault .unexpectedIndentation)
    | .dedent => readStatements source rest
    | _ => do
      let statement ← readStatement source token rest
      return statement.value.toList ++ (← readStatements source statement.rest)
termination_by tokens.length
decreasing_by
  all_goals have := length_of_skipNewlines _h
  · exact this
  · exact Nat.lt_of_le_of_lt statement.rest_le this

/-- The stylesheet that the tokens of a source write. -/
def Stylesheet.ofTokens (source : String) (tokens : List Token) : Read Stylesheet := do
  return ⟨← readStatements source tokens⟩

/-- The stylesheet that a source text writes. -/
def Stylesheet.ofSource (source : String) : Read Stylesheet :=
  match tokenize source with
  | .ok tokens => Stylesheet.ofTokens source tokens
  | .error fault => .error (fault.map .lexical)

end StylusToScss
