import StylusToScss.Proofs.Scss.Forms
import StylusToScss.Proofs.Scss.Settled

/-!
# What a looked-up property is worth

Each property that has been printed stays known to the end of the walk, by the name and the value
that were printed. `Node.Printed` says of every statement what is printed of it where these names
have been bound and these properties have been printed before, and which properties have been
printed behind it. A value is written there with literals in the places of its lookups
(`Node.settled`), and each has the text of the last property of its name, or the text of a name that
is looked up nowhere (`Site.LooksUp`). Each tree that is converted is printed so
(`Stylesheet.convert_lookups`).

The parameters of definitions are the only names that are written whatever their marks are.
-/

namespace StylusToScss

variable {α β : Type}

/-! ## What is printed -/

/-- A place of the walk: what is around it, the variables bound before it, and the properties
printed before it, the first ones first. -/
structure Site where
  around : Surrounding
  bound : List String
  declared : List Declared

namespace Site

/-- The text of a lookup: the value of the last property of that name that has been printed, or if
there is none the name as any other with its mark. -/
inductive LooksUp (site : Site) (name : String) (interpolated : Bool) : String → Prop
  | printed {before after text} (split : site.declared = before ++ ⟨name, text⟩ :: after)
      (last : ∀ later ∈ after, later.name ≠ name) : LooksUp site name interpolated text
  | ordinary (unprinted : ∀ earlier ∈ site.declared, earlier.name ≠ name) :
      LooksUp site name interpolated
        (if interpolated then "#\x7b" ++ reference name ++ "\x7d" else nameText site.bound name)

/-- What is known at the place apart from the properties. -/
def view (site : Site) : View :=
  ⟨.variables site.bound, site.around.within.isSome, site.around.policy⟩

/-- The fragment is written with the texts of lookups in their places. -/
def Gives (site : Site) (write : (String → Bool → String) → Written Fragment) (text : String) :
    Prop :=
  ∃ law warnings, (∀ name interpolated, site.LooksUp name interpolated (law name interpolated)) ∧
    write law = .ok ⟨text, warnings⟩

/-- The text of a value. -/
def Says (site : Site) (node : Node) : String → Prop :=
  site.Gives fun law => (node.settled law).value site.view

/-- The text of a selector or of the name of a property. -/
def SaysSegments (site : Site) (segments : List Node) : String → Prop :=
  site.Gives fun law => segmentsValue site.view (settledAll law segments)

/-- The text of the items of a loop. -/
def SaysItems (site : Site) (items : List Node) : String → Prop :=
  site.Gives fun law => do
    return .join ", " (← (settledAll law items).mapM (loopItem site.view))

/-- The place behind names that have been bound. -/
def binding (site : Site) (names : List String) : Site :=
  { site with bound := site.bound ++ names }

/-- The place where these properties have been printed. -/
def declaring (site : Site) (declared : List Declared) : Site :=
  { site with declared }

/-- The place within a definition. -/
def inside (site : Site) (form : DefinitionForm) : Site :=
  { site with around := site.around.inside form }

end Site

/-- The marks of selectors, each behind another. -/
inductive SelectorsPrinted (site : Site) : List Selector → List Mark → Prop
  | nil : SelectorsPrinted site [] []
  | cons {segments line text rest marks} (said : site.SaysSegments segments text)
      (more : SelectorsPrinted site rest marks) :
      SelectorsPrinted site (⟨segments, line⟩ :: rest) (.selector line :: .text text :: marks)

/-- The texts of the parameters of a definition. Each is the variable that it binds, whatever its
marks are. -/
inductive ParametersPrinted : Site → List Node → List String → Prop
  | nil {site} : ParametersPrinted site [] []
  | name {site name interpolated lookup line rest texts}
      (more : ParametersPrinted (site.binding [withoutDots name]) rest texts) :
      ParametersPrinted site (.ident name interpolated lookup line :: rest)
        (reference name :: texts)
  | default {site name value interpolated lookup line text rest texts}
      (said : (site.binding [withoutDots name]).Says value text)
      (more : ParametersPrinted (site.binding [withoutDots name]) rest texts) :
      ParametersPrinted site (.binding name value interpolated lookup line :: rest)
        ((reference name ++ ": " ++ text) :: texts)

/-- The text of a loop in front of its block. -/
inductive LoopPrinted (site : Site) (item : String) (key : Option String) (source : Expression) :
    String → Prop
  | range {left right word first last} (bounds : range? source = some (left, word, right))
      (keyless : key = none ∨ site.around.policy = .lenient)
      (lower : (site.binding [item]).Says left first)
      (upper : (site.binding [item]).Says right last) :
      LoopPrinted site item key source
        ("@for " ++ reference item ++ " from " ++ first ++ " " ++ word ++ " " ++ last)
  | each {items} (unbounded : range? source = none)
      (said : ((site.binding [item]).binding key.toList).SaysItems source.nodes items) :
      LoopPrinted site item key source
        ("@each " ++ String.intercalate ", " ((item :: key.toList).map reference) ++ " in " ++
          items)

mutual

/-- The marks of a statement, and the properties that have been printed behind it. -/
inductive Node.Printed : Site → Node → List Mark → List Declared → Prop
  | importRule {site path line} (pieces : path ≠ []) :
      Node.Printed site (.importRule path line)
        [.statement line,
          .text ("@import " ++ (pathQuote path ++ String.join (path.map (·.value)) ++
            pathQuote path) ++ ";")]
        site.declared
  | group {site segments start rest members line text more body declared}
      (said : site.SaysSegments segments text) (others : SelectorsPrinted site rest more)
      (inside : AllPrinted site members body declared) :
      Node.Printed site (.group (⟨segments, start⟩ :: rest) ⟨members, line⟩)
        (.statement start :: .text text :: more ++ enclosed body) declared
  | property {site segments value line name text} (named : site.SaysSegments segments name)
      (direct : shorthand? value = none) (said : site.Says (.expression value) text) :
      Node.Printed site (.property segments value line)
        [.statement line, .text (name ++ ": " ++ text ++ ";")]
        (site.declared ++ [⟨name, text⟩])
  | shorthand {site segments value inner line variable_ name text}
      (named : site.SaysSegments segments name)
      (binds : shorthand? value = some (variable_, inner))
      (said : site.Says (.expression inner) text) :
      Node.Printed site (.property segments value line)
        [.statement line, .text (reference variable_ ++ ": " ++ text ++ ";"), .sameStatement,
          .text (name ++ ": " ++ reference variable_ ++ ";")]
        (site.declared ++ [⟨name, reference variable_⟩])
  | assignment {site name value interpolated lookup line text}
      (plain : ∀ other params block start, value ≠ .definition other params block start)
      (said : site.Says value text) :
      Node.Printed site (.binding name value interpolated lookup line)
        [.statement line, .text (reference name ++ ": " ++ text ++ ";")] site.declared
  | definition {site name params start members blockLine line form texts body declared}
      (formed : formOf ⟨members, blockLine⟩ = form)
      (heads : ParametersPrinted (site.inside form) params texts)
      (inside : AllPrinted ((site.inside form).binding (parameterBinders params)) members body
        declared) :
      Node.Printed site (.definition name ⟨params, start⟩ ⟨members, blockLine⟩ line)
        (.statement line ::
          .text (form.word ++ name ++ parenthesize (String.intercalate ", " texts)) ::
            enclosed body)
        declared
  | assigned {site other name params block start interpolated lookup line marks declared}
      (printed : Node.Printed site (.definition name params block start) marks declared) :
      Node.Printed site
        (.binding other (.definition name params block start) interpolated lookup line) marks
        declared
  | conditional {site condition members blockLine alternatives line text body declared clauses
      last}
      (said : site.Says condition text) (inside : AllPrinted site members body declared)
      (more : ClausesPrinted ((site.binding (allBinders members)).declaring declared)
        alternatives clauses last) :
      Node.Printed site (.conditional condition ⟨members, blockLine⟩ alternatives line)
        (.statement line :: .text ("@if " ++ text) :: enclosed body ++ clauses) last
  | loop {site item key source members blockLine line head body declared}
      (said : LoopPrinted site item key source head)
      (inside : AllPrinted (site.binding (loopBinders item key source)) members body declared) :
      Node.Printed site (.loop item key source ⟨members, blockLine⟩ line)
        (.statement line :: .text head :: enclosed body) declared
  | unsupported {site kind line} (leftOut : site.around.policy = .lenient) :
      Node.Printed site (.unsupported kind line) [] site.declared
  | expression {site node text} (alone : node.isExpression = true) (said : site.Says node text) :
      Node.Printed site node
        [.statement node.line, .text (expressionWord site.around node ++ text ++ ";")]
        site.declared

/-- The marks of the alternatives of a conditional, and the properties printed behind them. -/
inductive ClausesPrinted : Site → List Node → List Mark → List Declared → Prop
  | nil {site} : ClausesPrinted site [] [] site.declared
  | conditional {site condition members blockLine alternatives line rest text body declared inner
      declared' more last}
      (said : site.Says condition text) (inside : AllPrinted site members body declared)
      (nested : ClausesPrinted ((site.binding (allBinders members)).declaring declared)
        alternatives inner declared')
      (others : ClausesPrinted
        ((site.binding (allBinders members ++ allBinders alternatives)).declaring declared') rest
        more last) :
      ClausesPrinted site (.conditional condition ⟨members, blockLine⟩ alternatives line :: rest)
        (.clause line :: .text (" @else if " ++ text) :: enclosed body ++ inner ++ more) last
  | block {site members line rest body declared more last}
      (inside : AllPrinted site members body declared)
      (others : ClausesPrinted ((site.binding (allBinders members)).declaring declared) rest more
        last) :
      ClausesPrinted site (.block ⟨members, line⟩ :: rest)
        (.clause line :: .text " @else" :: enclosed body ++ more) last

/-- The marks of statements, and the properties printed behind them. -/
inductive AllPrinted : Site → List Node → List Mark → List Declared → Prop
  | nil {site} : AllPrinted site [] [] site.declared
  | cons {site node rest first declared others last}
      (here : Node.Printed site node first declared)
      (more : AllPrinted ((site.binding node.binders).declaring declared) rest others last) :
      AllPrinted site (node :: rest) (first ++ others) last

end

/-! ## Steps of the walk -/

namespace Walk

variable {bound after last : List String} {declared : List Declared} {walk : Walk α}
  {printed : α → List Declared → Prop} {printed' : β → List Declared → Prop}

/-- Where these names have been bound and these properties printed, what the walk gives is printed
so. Behind it, the names `after` have been bound. -/
def Issues (bound : List String) (declared : List Declared) (after : List String) (walk : Walk α)
    (printed : α → List Declared → Prop) : Prop :=
  ∀ progress, progress.names.Hold bound declared →
    Yields (fun a => ∃ declared', (walk.run progress).2.names.Hold after declared' ∧
      printed a declared') (fun _ => True) (walk.run progress).1

theorem issues_pure {a : α} (h : printed a declared) :
    Issues bound declared bound (pure a) printed :=
  fun _ known => ⟨declared, known, h⟩

theorem issues_malformed (shape : ShapeFault) (line : Nat) :
    Issues bound declared after (malformed shape line : Walk α) printed :=
  fun _ _ => trivial

theorem Issues.bind {next : α → Walk β} (h : Issues bound declared after walk printed)
    (hn : ∀ a declared', printed a declared' → Issues after declared' last (next a) printed') :
    Issues bound declared last (walk >>= next) printed' := by
  intro progress known
  have here := h progress known
  rw [run_bind]
  generalize walk.run progress = result at here ⊢
  obtain ⟨e | a, behind⟩ := result
  · trivial
  · obtain ⟨declared', known', holds⟩ := here
    exact hn a declared' holds behind known'

theorem Issues.unbound (h : Issues bound declared bound walk printed) :
    Issues bound declared (bound ++ []) walk printed := by
  rwa [List.append_nil]

theorem issues_pure_bind {a : α} {next : α → Walk β}
    (h : Issues bound declared last (next a) printed') :
    Issues bound declared last (pure a >>= next) printed' := by
  rwa [pure_bind]

/-- A walk that prints no property, and what it gives. -/
abbrev Only (declared : List Declared) (good : α → Prop) (a : α) (declared' : List Declared) :
    Prop :=
  declared' = declared ∧ good a

theorem issues_bind (name : String) :
    Issues bound declared (bound ++ [name]) (Walk.bind name) (Only declared fun _ => True) :=
  fun _ known => ⟨declared, known.bind name, rfl, trivial⟩

theorem issues_record (property text : String) :
    Issues bound declared bound (rename (·.record property text)) fun _ declared' =>
      declared' = declared ++ [⟨property, text⟩] :=
  fun _ known => ⟨_, known.record property text, rfl⟩

theorem issues_value {around : Surrounding} {good : String → Prop} {write : View → Written Fragment}
    (h : ∀ view, view.names.Hold bound declared → view.inDefinition = around.within.isSome →
      view.policy = around.policy →
      Yields (fun fragment => good fragment.text) (fun _ => True) (write view)) :
    Issues bound declared bound (value around write) (Only declared good) := by
  intro progress known
  have here := h ⟨progress.names, around.within.isSome, around.policy⟩ known rfl rfl
  rw [run_value]
  generalize write _ = outcome at here ⊢
  cases outcome with
  | error e => trivial
  | ok fragment => exact ⟨declared, known, rfl, here⟩

end Walk

open Walk

/-! ## Statements -/

section
variable (site : Site)

/-- The text of a lookup among what the walk knows at a site. -/
theorem Site.looksUp_resolve {view : View} (known : view.names.Hold site.bound site.declared)
    (name : String) (interpolated : Bool) :
    site.LooksUp name interpolated (view.resolve name interpolated true) := by
  unfold View.resolve
  simp only [if_true, known.properties, known.binders name]
  cases found : lastText? site.declared name with
  | some text =>
    obtain ⟨before, after, split, last⟩ := lastText?_eq_some_iff.1 found
    exact .printed split last
  | none => exact .ordinary (lastText?_eq_none_iff.1 found)

/-- What the walk writes at a site is written with the texts of lookups in their places. -/
theorem issues_gives {write : View → Written Fragment}
    {settled : (String → Bool → String) → Written Fragment}
    (h : ∀ {view law}, view.Settles site.view law → settled law = write view) :
    Issues site.bound site.declared site.bound (Walk.value site.around write)
      (Only site.declared (site.Gives settled)) := by
  refine issues_value fun view known inside policy => ?_
  have settles : view.Settles site.view fun name interpolated =>
      view.resolve name interpolated true :=
    { binders := fun name => Bool.eq_iff_iff.2
        ((Names.knows_variables site.bound name).trans (known.binders name).symm)
      inDefinition := inside.symm
      policy := policy.symm
      looked := fun _ _ => rfl }
  cases written : write view with
  | error e => trivial
  | ok fragment =>
    exact ⟨_, fragment.warnings, site.looksUp_resolve known, (h settles).trans written⟩

theorem issues_nodeValue (node : Node) :
    Issues site.bound site.declared site.bound (Walk.value site.around fun view => node.value view)
      (Only site.declared (site.Says node)) :=
  issues_gives site fun settles => node.value_settled settles

theorem issues_segmentsValue (segments : List Node) :
    Issues site.bound site.declared site.bound
      (Walk.value site.around fun view => segmentsValue view segments)
      (Only site.declared (site.SaysSegments segments)) :=
  issues_gives site fun settles => segmentsValue_settled settles segments

theorem issues_items (items : List Node) :
    Issues site.bound site.declared site.bound
      (Walk.value site.around fun view => do
        return .join ", " (← items.mapM (loopItem view)))
      (Only site.declared (site.SaysItems items)) :=
  issues_gives site fun settles => by rw [loopItems_settled settles]

theorem issues_policy (kind : String) (line : Nat) :
    Issues site.bound site.declared site.bound
      (Walk.value site.around fun view => view.policy.unsupported kind line)
      (Only site.declared fun _ => site.around.policy = .lenient) := by
  refine issues_value fun view _ _ policy => ?_
  rw [← policy]
  cases view.policy with
  | strict => trivial
  | lenient => rfl

theorem issues_importMarks (path : List Literal) (line : Nat) :
    Issues site.bound site.declared site.bound (importMarks path line)
      (Node.Printed site (.importRule path line)) := by
  unfold importMarks
  split
  · exact issues_malformed _ _
  · next pieces => exact issues_pure (.importRule fun none => pieces (none ▸ rfl))

theorem issues_propertyMarks (segments : List Node) (value : Expression) (line : Nat) :
    Issues site.bound site.declared (site.bound ++ (Node.property segments value line).binders)
      (propertyMarks site.around segments value line)
      (Node.Printed site (.property segments value line)) := by
  unfold propertyMarks
  refine (issues_segmentsValue site segments).bind ?_
  rintro name _ ⟨rfl, named⟩
  rw [Node.binders]
  cases form : shorthand? value with
  | none =>
    rw [Option.map_none, Option.toList_none, List.append_nil]
    refine (issues_nodeValue site (.expression value)).bind ?_
    rintro text _ ⟨rfl, said⟩
    refine (issues_record _ _).bind ?_
    rintro _ _ rfl
    exact issues_pure (.property named form said)
  | some short =>
    refine (issues_nodeValue site (.expression short.2)).bind ?_
    rintro text _ ⟨rfl, said⟩
    refine (issues_bind short.1).bind ?_
    rintro _ _ ⟨rfl, -⟩
    refine (issues_record _ _).bind ?_
    rintro _ _ rfl
    exact issues_pure (.shorthand named form said)

theorem issues_assignmentMarks (name : String) {value : Node} (interpolated lookup : Bool)
    (line : Nat)
    (plain : ∀ other params block start, value ≠ .definition other params block start) :
    Issues site.bound site.declared (site.bound ++ [name])
      (assignmentMarks site.around name value line)
      (Node.Printed site (.binding name value interpolated lookup line)) := by
  unfold assignmentMarks
  refine (issues_nodeValue site value).bind ?_
  rintro text _ ⟨rfl, said⟩
  refine (issues_bind name).bind ?_
  rintro _ _ ⟨rfl, -⟩
  exact issues_pure (.assignment plain said)

theorem issues_expressionMarks {node : Node} (alone : node.isExpression = true) :
    Issues site.bound site.declared site.bound (expressionMarks site.around node)
      (Node.Printed site node) := by
  unfold expressionMarks
  refine (issues_nodeValue site node).bind ?_
  rintro text _ ⟨rfl, said⟩
  exact issues_pure (.expression alone said)

theorem issues_selectorMarks (selectors : List Selector) :
    Issues site.bound site.declared site.bound (selectorMarks site.around selectors)
      (Only site.declared (SelectorsPrinted site selectors)) := by
  induction selectors with
  | nil => exact issues_pure ⟨rfl, .nil⟩
  | cons selector rest ih =>
    obtain ⟨segments, line⟩ := selector
    refine (issues_segmentsValue site segments).bind ?_
    rintro text _ ⟨rfl, said⟩
    refine ih.bind ?_
    rintro marks _ ⟨rfl, more⟩
    exact issues_pure ⟨rfl, .cons said more⟩

theorem issues_loopHead (item : String) (key : Option String) (source : Expression) (line : Nat) :
    Issues site.bound site.declared (site.bound ++ loopBinders item key source)
      (loopHead site.around item key source line)
      (Only site.declared (LoopPrinted site item key source)) := by
  unfold loopHead loopBinders
  refine (issues_bind item).bind ?_
  rintro _ _ ⟨rfl, -⟩
  cases bounds : range? source with
  | some range =>
    obtain ⟨left, word, right⟩ := range
    have ends (keyless : key = none ∨ site.around.policy = .lenient) :
        Issues (site.bound ++ [item]) site.declared (site.bound ++ [item])
          (do
            let first ← Walk.value site.around fun view => left.value view
            let last ← Walk.value site.around fun view => right.value view
            return "@for " ++ reference item ++ " from " ++ first ++ " " ++ word ++ " " ++ last)
          (Only site.declared (LoopPrinted site item key source)) := by
      refine (issues_nodeValue (site.binding [item]) left).bind ?_
      rintro first _ ⟨rfl, lower⟩
      refine (issues_nodeValue (site.binding [item]) right).bind ?_
      rintro last _ ⟨rfl, upper⟩
      exact issues_pure ⟨rfl, .range bounds keyless lower upper⟩
    cases key with
    | none => exact ends (.inl rfl)
    | some key =>
      refine (issues_policy (site.binding [item]) _ line).bind ?_
      rintro _ _ ⟨rfl, lenient⟩
      exact ends (.inr lenient)
  | none =>
    cases key with
    | none =>
      show Issues (site.bound ++ [item]) site.declared (site.bound ++ [item]) _ _
      have items := issues_items ((site.binding [item]).binding []) source.nodes
      rw [show (Site.binding _ []).bound = _ from List.append_nil _] at items
      refine issues_pure_bind (items.bind ?_)
      rintro items _ ⟨rfl, said⟩
      exact issues_pure ⟨rfl, .each bounds said⟩
    | some key =>
      show Issues (site.bound ++ [item]) site.declared (site.bound ++ [item, key]) _ _
      rw [List.append_cons site.bound item [key]]
      refine (issues_bind key).bind ?_
      rintro _ _ ⟨rfl, -⟩
      have items := issues_items ((site.binding [item]).binding [key]) source.nodes
      refine issues_pure_bind (items.bind ?_)
      rintro items _ ⟨rfl, said⟩
      exact issues_pure ⟨rfl, .each bounds said⟩

end

theorem issues_parameterTexts (site : Site) : ∀ params : List Node,
    Issues site.bound site.declared (site.bound ++ parameterBinders params)
      (parameterTexts site.around params) (Only site.declared (ParametersPrinted site params))
  | [] => by
    rw [parameterBinders, List.append_nil]
    exact issues_pure ⟨rfl, .nil⟩
  | .ident name _ _ _ :: rest => by
    rw [parameterBinders, List.append_cons]
    refine (issues_bind _).bind ?_
    rintro _ _ ⟨rfl, -⟩
    refine (issues_parameterTexts (site.binding [withoutDots name]) rest).bind ?_
    rintro texts _ ⟨rfl, more⟩
    exact issues_pure ⟨rfl, .name more⟩
  | .binding name value _ _ _ :: rest => by
    rw [parameterBinders, List.append_cons]
    refine (issues_bind _).bind ?_
    rintro _ _ ⟨rfl, -⟩
    refine (issues_nodeValue (site.binding [withoutDots name]) value).bind ?_
    rintro text _ ⟨rfl, said⟩
    refine (issues_parameterTexts (site.binding [withoutDots name]) rest).bind ?_
    rintro texts _ ⟨rfl, more⟩
    exact issues_pure ⟨rfl, .default said more⟩
  | .group _ _ :: _ | .selector _ :: _ | .block _ :: _ | .property _ _ _ :: _
  | .expression _ :: _ | .call _ _ _ :: _ | .arguments _ :: _ | .params _ :: _
  | .binary _ _ _ _ :: _ | .unary _ _ _ :: _ | .conditional _ _ _ _ :: _
  | .loop _ _ _ _ _ :: _ | .definition _ _ _ _ :: _ | .importRule _ _ :: _
  | .literal _ :: _ | .measure _ _ _ :: _ | .boolean _ _ :: _ | .color _ _ :: _
  | .unsupported _ _ :: _ => issues_malformed _ _

theorem issues_definition (site : Site) (name : String) (params members : List Node)
    (start blockLine line : Nat) {body : Walk (List Mark)}
    (h : ∀ site' : Site, site'.around = site.around.inside (formOf ⟨members, blockLine⟩) →
      Issues site'.bound site'.declared (site'.bound ++ allBinders members) body
        fun marks declared => ∃ inner, marks = enclosed inner ∧
          AllPrinted site' members inner declared) :
    Issues site.bound site.declared (site.bound ++ (parameterBinders params ++ allBinders members))
      (definitionMarks site.around name ⟨params, start⟩ line (formOf ⟨members, blockLine⟩) body)
      (Node.Printed site (.definition name ⟨params, start⟩ ⟨members, blockLine⟩ line)) := by
  unfold definitionMarks
  rw [← List.append_assoc]
  refine (issues_parameterTexts (site.inside (formOf ⟨members, blockLine⟩)) params).bind ?_
  rintro texts _ ⟨rfl, heads⟩
  refine (h ((site.inside _).binding (parameterBinders params)) rfl).bind ?_
  rintro _ declared ⟨inner, rfl, inside⟩
  exact issues_pure (.definition rfl heads inside)

mutual

theorem Node.issues_statement (site : Site) : ∀ node : Node,
    Issues site.bound site.declared (site.bound ++ node.binders) (node.statement site.around)
      (node.Printed site)
  | .importRule path line => (issues_importMarks site path line).unbound
  | .group [] ⟨_, _⟩ => issues_malformed _ _
  | .group (⟨segments, _⟩ :: rest) ⟨members, line⟩ => by
    refine (issues_segmentsValue site segments).bind ?_
    rintro text _ ⟨rfl, said⟩
    refine (issues_selectorMarks site rest).bind ?_
    rintro more _ ⟨rfl, others⟩
    refine (issues_block site members line).bind ?_
    rintro _ declared ⟨body, rfl, inside⟩
    exact issues_pure (.group said others inside)
  | .property segments value line => issues_propertyMarks site segments value line
  | .binding _ (.definition name ⟨params, start⟩ ⟨members, blockLine⟩ line) _ _ _ => by
    have h := issues_definition site name params members start blockLine line
      fun site' inside => inside ▸ issues_block site' members blockLine
    intro progress known
    refine (h progress known).mono ?_
    rintro marks ⟨declared, known', printed⟩
    exact ⟨declared, known', .assigned printed⟩
  | .definition name ⟨params, start⟩ ⟨members, blockLine⟩ line =>
    issues_definition site name params members start blockLine line
      fun site' inside => inside ▸ issues_block site' members blockLine
  | .conditional condition ⟨members, blockLine⟩ alternatives line => by
    rw [Node.binders, ← List.append_assoc]
    refine (issues_nodeValue site condition).bind ?_
    rintro text _ ⟨rfl, said⟩
    refine (issues_block site members blockLine).bind ?_
    rintro _ declared ⟨body, rfl, inside⟩
    refine (issues_alternativeMarks ((site.binding (allBinders members)).declaring declared)
      alternatives).bind ?_
    intro clauses last more
    exact issues_pure (.conditional said inside more)
  | .loop item key source ⟨members, blockLine⟩ line => by
    rw [Node.binders, ← List.append_assoc]
    refine (issues_loopHead site item key source line).bind ?_
    rintro head _ ⟨rfl, said⟩
    refine (issues_block (site.binding (loopBinders item key source)) members blockLine).bind ?_
    rintro _ declared ⟨body, rfl, inside⟩
    exact issues_pure (.loop said inside)
  | .unsupported kind line => by
    refine Issues.unbound ((issues_policy site kind line).bind ?_)
    rintro _ _ ⟨rfl, leftOut⟩
    exact issues_pure (.unsupported leftOut)
  | .binding _ (.importRule _ _) _ _ _ | .binding _ (.group _ _) _ _ _
  | .binding _ (.selector _) _ _ _ | .binding _ (.block _) _ _ _
  | .binding _ (.property _ _ _) _ _ _ | .binding _ (.ident _ _ _ _) _ _ _
  | .binding _ (.binding _ _ _ _ _) _ _ _ | .binding _ (.expression _) _ _ _
  | .binding _ (.call _ _ _) _ _ _ | .binding _ (.arguments _) _ _ _
  | .binding _ (.params _) _ _ _ | .binding _ (.binary _ _ _ _) _ _ _
  | .binding _ (.unary _ _ _) _ _ _ | .binding _ (.conditional _ _ _ _) _ _ _
  | .binding _ (.loop _ _ _ _ _) _ _ _ | .binding _ (.literal _) _ _ _
  | .binding _ (.measure _ _ _) _ _ _ | .binding _ (.boolean _ _) _ _ _
  | .binding _ (.color _ _) _ _ _ | .binding _ (.unsupported _ _) _ _ _ =>
    issues_assignmentMarks site _ _ _ _ nofun
  | .ident _ _ _ _ | .expression ⟨_, _, _, _⟩ | .call _ ⟨_, _⟩ _ | .binary _ _ _ _ | .unary _ _ _
  | .literal _ | .measure _ _ _ | .boolean _ _ | .color _ _ =>
    (issues_expressionMarks site rfl).unbound
  | .selector _ | .block _ | .arguments ⟨_, _⟩ | .params ⟨_, _⟩ => issues_malformed _ _

theorem issues_alternativeMarks (site : Site) : ∀ nodes : List Node,
    Issues site.bound site.declared (site.bound ++ allBinders nodes)
      (alternativeMarks site.around nodes) (ClausesPrinted site nodes)
  | [] => (issues_pure .nil).unbound
  | .conditional condition ⟨members, blockLine⟩ alternatives line :: rest => by
    rw [allBinders, Node.binders, ← List.append_assoc]
    refine (issues_nodeValue site condition).bind ?_
    rintro text _ ⟨rfl, said⟩
    refine (issues_block site members blockLine).bind ?_
    rintro _ declared ⟨body, rfl, inside⟩
    have inner := issues_alternativeMarks ((site.binding (allBinders members)).declaring declared)
      alternatives
    rw [show (((site.binding _).declaring declared).bound ++ _ : List String) = _ from
      List.append_assoc _ _ _] at inner
    refine inner.bind ?_
    intro nested declared' printed
    refine (issues_alternativeMarks
      ((site.binding (allBinders members ++ allBinders alternatives)).declaring declared')
      rest).bind ?_
    intro more last others
    exact issues_pure (.conditional said inside printed others)
  | .block ⟨members, line⟩ :: rest => by
    rw [allBinders, Node.binders, ← List.append_assoc]
    refine (issues_block site members line).bind ?_
    rintro _ declared ⟨body, rfl, inside⟩
    refine (issues_alternativeMarks ((site.binding (allBinders members)).declaring declared)
      rest).bind ?_
    intro more last others
    exact issues_pure (.block inside others)
  | .importRule _ _ :: _ | .group _ _ :: _ | .selector _ :: _ | .property _ _ _ :: _
  | .ident _ _ _ _ :: _ | .binding _ _ _ _ _ :: _ | .expression _ :: _ | .call _ _ _ :: _
  | .arguments _ :: _ | .params _ :: _ | .binary _ _ _ _ :: _ | .unary _ _ _ :: _
  | .loop _ _ _ _ _ :: _ | .literal _ :: _ | .measure _ _ _ :: _ | .boolean _ _ :: _
  | .color _ _ :: _ | .definition _ _ _ _ :: _ | .unsupported _ _ :: _ => issues_malformed _ _

theorem issues_block (site : Site) (members : List Node) (line : Nat) :
    Issues site.bound site.declared (site.bound ++ allBinders members)
      (Block.marks site.around ⟨members, line⟩) fun marks declared =>
        ∃ body, marks = enclosed body ∧ AllPrinted site members body declared := by
  refine (issues_statements site members).bind ?_
  intro body declared inside
  exact issues_pure ⟨body, rfl, inside⟩

theorem issues_statements (site : Site) : ∀ nodes : List Node,
    Issues site.bound site.declared (site.bound ++ allBinders nodes)
      (statements site.around nodes) (AllPrinted site nodes)
  | [] => (issues_pure .nil).unbound
  | node :: rest => by
    rw [allBinders, ← List.append_assoc]
    refine (node.issues_statement site).bind ?_
    intro first declared here
    refine (issues_statements ((site.binding node.binders).declaring declared) rest).bind ?_
    intro others last more
    exact issues_pure (.cons here more)

end

/-! ## Stylesheets -/

/-- Every tree that is converted is printed with the value of the last property of that name in the
place of each lookup, if such a property has been printed before, and else with the name as any
other. -/
theorem Stylesheet.convert_lookups {options : Options} {sheet : Stylesheet} {converted : Converted}
    (ok : sheet.convert options = .ok converted) :
    ∃ marks declared,
      AllPrinted ⟨⟨options.policy, none⟩, [], []⟩ sheet.nodes marks declared ∧
        converted.text = layOut marks := by
  have printed := issues_statements ⟨⟨options.policy, none⟩, [], []⟩ sheet.nodes .start .none
  unfold convert at ok
  generalize (statements ⟨options.policy, none⟩ sheet.nodes).run .start = outcome at printed ok
  obtain ⟨e | marks, progress⟩ := outcome
  · cases ok
  · obtain ⟨declared, -, printed⟩ := printed
    cases ok
    exact ⟨marks, declared, printed, rfl⟩

/-- A property is not known yet in its own value; an earlier one of its name is, although its block
has ended. Behind it, it is the last one. What has been bound besides is a variable. -/
theorem lookups_latest : ∃ sheet marks declared,
    Stylesheet.convert ⟨.scss, .strict⟩ sheet =
      .ok ⟨"$x: red;\nsize: $x;\na \x7b\n  size: big;\n\x7d\nsize: big small;\n" ++
        "@each $i in size, big small, $x, #\x7b$y\x7d \x7b\n\x7d", []⟩ ∧
    AllPrinted ⟨⟨.strict, none⟩, [], []⟩ sheet.nodes marks declared := by
  have ok : Stylesheet.convert ⟨.scss, .strict⟩ ⟨[
      .property [.plain "size" 1]
        (.sequence [.bound "x" (.expression (.sequence [.plain "red" 1] 1)) 1] 1) 1,
      .group [⟨[.plain "a" 2], 2⟩]
        ⟨[.property [.plain "size" 3] (.sequence [.plain "big" 3] 3) 3], 2⟩,
      .property [.plain "size" 4]
        (.sequence [.ident "size" false true 4, .plain "small" 4] 4) 4,
      .loop "i" none
        (.sequence [.plain "size" 5, .ident "size" false true 5, .ident "x" false true 5,
          .ident "y" true true 5] 5) ⟨[], 5⟩ 5]⟩ =
      .ok ⟨"$x: red;\nsize: $x;\na \x7b\n  size: big;\n\x7d\nsize: big small;\n" ++
        "@each $i in size, big small, $x, #\x7b$y\x7d \x7b\n\x7d", []⟩ := by
    decide +kernel
  obtain ⟨marks, declared, printed, -⟩ := Stylesheet.convert_lookups ok
  exact ⟨_, marks, declared, ok, printed⟩

/-- A parameter that is marked as a lookup is written as the variable that it binds, and not as the
value of the property of its name. -/
theorem parameter_not_looked_up :
    Stylesheet.convert ⟨.scss, .strict⟩ ⟨[
        .property [.plain "color" 1] (.sequence [.plain "red" 1] 1) 1,
        .definition "f" ⟨[.ident "color" false true 2], 2⟩ ⟨[.boolean true 3], 2⟩ 2]⟩ =
      .ok ⟨"color: red;\n@function f($color) \x7b\n  @return true;\n\x7d", []⟩ ∧
    Site.LooksUp ⟨⟨.strict, some .function⟩, [], [⟨"color", "red"⟩]⟩ "color" false "red" ∧
    reference "color" ≠ "red" := by
  have printed : Site.LooksUp ⟨⟨.strict, some .function⟩, [], [⟨"color", "red"⟩]⟩ "color" false
      "red" := .printed (List.nil_append _).symm (List.forall_mem_nil _)
  exact ⟨by decide +kernel, printed, by decide⟩

end StylusToScss
