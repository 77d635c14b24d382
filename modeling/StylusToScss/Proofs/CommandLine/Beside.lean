import Mathlib.Data.List.TakeWhile
import StylusToScss.Proofs.CommandLine.Commands
import StylusToScss.Proofs.Pieces

/-!
# The output beside the input

A build without an output path writes beside its input, under the stem of the input's name and with
another extension. Whatever slashes, dots and `..` the path has, the output path leads to the
directory that the input is in (`Path.components_beside`), so the two are the same file exactly
where the names are the same (`Files.place_beside_iff`): where the name of the input has that
extension already.

* `build_keeps_source`: any other input reads after a build as it did before.
-/

namespace StylusToScss

/-! ## Components -/

/-- The pieces between separators hold none. -/
theorem not_mem_cutAt {α : Type} {p : α → Bool} {l : List α} :
    ∀ piece ∈ cutAt p l, ∀ item ∈ piece, p item = false := by
  induction l with
  | nil => simp [cutAt]
  | cons item rest ih =>
    rw [cutAt]
    split
    · exact List.forall_mem_cons.2 ⟨List.forall_mem_nil _, ih⟩
    · next plain =>
      have plain : p item = false := by simpa using plain
      cases cut : cutAt p rest with
      | nil => exact absurd cut (cutAt_ne_nil rest)
      | cons piece pieces =>
        obtain ⟨here, more⟩ := List.forall_mem_cons.1 (cut ▸ ih)
        exact List.forall_mem_cons.2 ⟨List.forall_mem_cons.2 ⟨plain, here⟩, more⟩

namespace Path

variable {above : List String} {name path extension : String}

/-- No slash stands in a name. -/
def Unslashed (name : String) : Prop := '/' ∉ name.toList

theorem unslashed_of_mem {component : String} (h : component ∈ components path) :
    Unslashed component := by
  obtain ⟨piece, mem, rfl⟩ := List.mem_map.1 h
  intro slash
  rw [String.toList_ofList] at slash
  exact absurd (not_mem_cutAt piece mem _ slash) (by simp)

theorem components_of_unslashed (h : Unslashed name) : components name = [name] := by
  have plain : ∀ c ∈ name.toList, (c == '/') = false :=
    fun c hc => beq_false_of_ne fun same => h (same ▸ hc)
  rw [components, cutAt_eq_singleton plain, List.map_singleton, String.ofList_toList]

theorem components_append (a b : String) :
    components (a ++ "/" ++ b) = components a ++ components b := by
  have text : (a ++ "/" ++ b).toList = a.toList ++ '/' :: b.toList := by
    rw [String.toList_append, String.toList_append, List.append_assoc]
    rfl
  rw [components, text, cutAt_append (p := (· == '/')) rfl, List.map_append]
  rfl

/-- Components that are put together are the components again. -/
theorem components_intercalate {parts : List String} (some : parts ≠ [])
    (whole : ∀ part ∈ parts, Unslashed part) :
    components ("/".intercalate parts) = parts := by
  induction parts with
  | nil => exact absurd rfl some
  | cons part rest ih =>
    obtain ⟨here, more⟩ := List.forall_mem_cons.1 whole
    cases rest with
    | nil => simpa using components_of_unslashed here
    | cons next rest =>
      rw [String.intercalate_cons_cons, components_append, components_of_unslashed here,
        ih (List.cons_ne_nil _ _) more]
      rfl

/-! ## Components that change nothing -/

/-- What is taken off the end of components changes nothing. -/
theorem exists_idle (components : List String) : ∃ idle, components = withoutIdleEnd components ++
    idle ∧ ∀ component ∈ idle, isIdle component = true := by
  cases components with
  | nil => exact ⟨[], rfl, nofun⟩
  | cons first rest =>
    refine ⟨(rest.reverse.takeWhile isIdle).reverse, ?_, ?_⟩
    · rw [withoutIdleEnd, List.cons_append, ← List.reverse_append, List.takeWhile_append_dropWhile,
        List.reverse_reverse]
    · intro component mem
      exact List.mem_takeWhile_imp (List.mem_reverse.1 mem)

theorem withoutIdleEnd_concat (solid : isIdle name = false) :
    withoutIdleEnd (above ++ [name]) = above ++ [name] := by
  cases above with
  | nil => rfl
  | cons first rest => simp [withoutIdleEnd, solid]

/-- Only a first component is an empty one at the end. -/
theorem withoutIdleEnd_eq_of_getLast? {components : List String}
    (h : (withoutIdleEnd components).getLast? = some "") : withoutIdleEnd components = [""] := by
  cases components with
  | nil => cases h
  | cons first rest =>
    rw [withoutIdleEnd] at h ⊢
    cases kept : rest.reverse.dropWhile isIdle with
    | nil =>
      rw [kept] at h
      simpa using h
    | cons last front =>
      have solid := List.head?_dropWhile_not isIdle rest.reverse
      rw [kept] at solid
      rw [kept, List.reverse_cons, ← List.cons_append, List.getLast?_concat] at h
      cases h
      cases solid

/-! ## The path beside another one -/

/-- The name of the output beside a file of this name. -/
def besideName (name extension : String) : String :=
  (if isName name then stemOf name else "out") ++ "." ++ extension

/-- Joining a directory and a name puts the name behind the components of the directory. -/
theorem components_join (whole : ∀ component ∈ above, Unslashed component)
    (plain : Unslashed name) :
    components (join (ofComponents (withoutIdleEnd above)) name) =
      withoutIdleEnd above ++ [name] := by
  obtain ⟨idle, split, -⟩ := exists_idle above
  replace whole : ∀ part ∈ withoutIdleEnd above, Unslashed part := by
    intro part mem
    exact whole part (split ▸ List.mem_append_left idle mem)
  have unended := @withoutIdleEnd_eq_of_getLast? above
  generalize withoutIdleEnd above = parts at whole unended
  by_cases none : parts = []
  · subst none
    exact components_of_unslashed plain
  by_cases root : parts = [""]
  · subst root
    exact (components_append "" name).trans (by rw [components_of_unslashed plain]; rfl)
  -- The directory is no empty text and ends with no slash, as its components show.
  have directory := components_intercalate none whole
  have written : "/".intercalate parts ≠ "" := by
    intro empty
    rw [empty] at directory
    exact root directory.symm
  have open_ : ("/".intercalate parts).toList.getLast? ≠ some '/' := by
    intro slash
    obtain ⟨front, text⟩ := List.getLast?_eq_some_iff.1 slash
    have shown : "/".intercalate parts = String.ofList front ++ "/" ++ "" := by
      rw [← String.toList_inj, text]
      simp
    rw [shown, components_append] at directory
    refine root (unended ?_)
    rw [← directory]
    exact List.getLast?_concat
  rw [ofComponents, if_neg root, join, if_neg written, if_neg open_, components_append, directory,
    components_of_unslashed plain]

theorem unslashed_stemOf (h : Unslashed name) : Unslashed (stemOf name) := by
  unfold stemOf
  simp only
  split
  · exact h
  · intro slash
    rw [String.toList_ofList, List.mem_reverse] at slash
    exact h (List.mem_reverse.1 ((List.dropWhile_sublist _).subset (List.mem_of_mem_drop slash)))

theorem unslashed_besideName (h : Unslashed name) (plain : Unslashed extension) :
    Unslashed (besideName name extension) := by
  unfold besideName Unslashed
  rw [String.toList_append, String.toList_append, List.mem_append, List.mem_append, not_or, not_or]
  refine ⟨⟨?_, by decide⟩, plain⟩
  split
  · exact unslashed_stemOf h
  · decide

/-- The path beside a file: it leads through the components before the name of the file. -/
theorem components_beside (split : components path = above ++ [name])
    (solid : isIdle name = false) (plain : Unslashed extension) :
    components (beside path extension) =
      withoutIdleEnd above ++ [besideName name extension] := by
  have whole : ∀ component ∈ above ++ [name], Unslashed component :=
    fun component mem => unslashed_of_mem (split ▸ mem)
  obtain ⟨parents, named⟩ := List.forall_mem_append.1 whole
  have name_eq : fileName path = name := by
    rw [fileName, split, withoutIdleEnd_concat solid, List.getLast?_concat]
    rfl
  have directory_eq : directoryOf path = ofComponents (withoutIdleEnd above) := by
    rw [directoryOf, split, withoutIdleEnd_concat solid, List.dropLast_concat]
  have beside_eq : beside path extension =
      join (ofComponents (withoutIdleEnd above)) (besideName name extension) := by
    rw [← directory_eq, ← name_eq]
    rfl
  rw [beside_eq]
  exact components_join parents
    (unslashed_besideName (named name (List.mem_singleton.2 rfl)) plain)

/-! ## Extensions -/

/-- The stem of a name with an extension. -/
theorem stemOf_append {stem : String} (some : stem ≠ "") : stemOf (stem ++ ".scss") = stem := by
  have reversed : (stem ++ ".scss").toList.reverse =
      's' :: 's' :: 'c' :: 's' :: '.' :: stem.toList.reverse := by
    rw [String.toList_append, List.reverse_append]
    rfl
  have front : stem.toList.reverse.isEmpty = false := by simpa using some
  unfold stemOf
  rw [reversed]
  simp [front]

theorem isName_append (stem : String) : isName (stem ++ ".scss") = true := by
  have other (short : String) (few : short.toList.length < 5) : stem ++ ".scss" ≠ short := by
    rintro rfl
    rw [String.toList_append, List.length_append] at few
    exact absurd few (by simp)
  simp [isName, isIdle, other ".", other "..", other ""]

/-- The name is a stem and the extension of an output. -/
def NamesOutput (name : String) : Prop := ∃ stem, stem ≠ "" ∧ name = stem ++ ".scss"

/-- The output beside a file has the name of the file exactly where that is the name of an output
already. -/
theorem besideName_eq_iff : besideName name "scss" = name ↔ NamesOutput name := by
  unfold besideName
  rw [String.append_assoc]
  refine ⟨fun same => ?_, ?_⟩
  · split at same
    · refine ⟨stemOf name, fun none => ?_, same.symm⟩
      rw [none] at same
      rw [← same] at none
      exact absurd none (by decide)
    · next unnamed =>
      rw [← same] at unnamed
      exact absurd (by decide) unnamed
  · rintro ⟨stem, some, rfl⟩
    rw [if_pos (isName_append stem), stemOf_append some]
    rfl

end Path

/-! ## Places -/

namespace Files

variable {files : Files} {start place directory other : Place} {name component : String}
  {content : ByteArray}

theorem follow_idle (idle : Path.isIdle component = true) :
    follow place component = .ok place := by
  have short : ¬ component.utf8ByteSize > 255 := by
    rcases (by simpa [Path.isIdle] using idle : component = "" ∨ component = ".") with rfl | rfl
    · decide
    · decide
  rw [follow, if_neg short, if_pos idle]

/-- Components that change nothing can be left out before the last one. -/
theorem followAll_idle {idle : List String} (all : ∀ component ∈ idle,
      Path.isIdle component = true) (h : files.followAll start (idle ++ [name]) = .ok place) :
    files.followAll start [name] = .ok place := by
  induction idle with
  | nil => exact h
  | cons component rest ih =>
    obtain ⟨here, more⟩ := List.forall_mem_cons.1 all
    rw [List.cons_append, followAll] at h
    cases entered : files.entry start with
    | file | missing =>
      rw [entered] at h
      cases h
    | directory =>
      rw [entered, follow_idle here] at h
      exact ih more h

theorem followAll_withoutIdle {front idle : List String} (all : ∀ component ∈ idle,
      Path.isIdle component = true)
    (h : files.followAll start (front ++ idle ++ [name]) = .ok place) :
    files.followAll start (front ++ [name]) = .ok place := by
  rw [List.append_assoc, followAll_append] at h
  obtain ⟨next, way, behind⟩ := bind_eq_ok_iff.1 h
  rw [followAll_append, way]
  exact followAll_idle all behind

theorem locate_withoutIdleEnd {above : List String}
    (h : files.locate (above ++ [name]) = .ok place) :
    files.locate (Path.withoutIdleEnd above ++ [name]) = .ok place := by
  obtain ⟨idle, split, all⟩ := Path.exists_idle above
  cases above with
  | nil => exact h
  | cons first rest =>
    obtain ⟨front, kept⟩ : ∃ front, Path.withoutIdleEnd (first :: rest) = first :: front :=
      ⟨_, rfl⟩
    rw [kept] at split ⊢
    obtain rfl : rest = front ++ idle := (List.cons.inj split).2
    obtain ⟨start, before, located⟩ := locate_behind first
    rw [located, ← List.append_assoc] at h
    show files.locate (first :: front ++ [name]) = _
    rw [located]
    exact followAll_withoutIdle all h

/-- A single component is followed from a directory. -/
theorem followAll_singleton (h : files.followAll start [name] = .ok place) :
    files.entry start = .directory ∧ follow start name = .ok place := by
  rw [followAll] at h
  cases entered : files.entry start with
  | file | missing =>
    rw [entered] at h
    cases h
  | directory =>
    rw [entered] at h
    cases step : follow start name with
    | error e =>
      rw [step] at h
      cases h
    | ok last =>
      rw [step] at h
      exact ⟨rfl, h⟩

/-- The last component of a path is followed from the directory that the others lead to. -/
theorem follow_of_locate {above : List String} (named : name ≠ "")
    (leads : files.locate (above ++ [name]) = .ok place)
    (enters : files.locate (above ++ ["."]) = .ok directory) :
    follow directory name = .ok place := by
  obtain ⟨start, middle, located, way, -⟩ := enters_spec enters
  rw [located _ _ named, followAll_append, way] at leads
  exact (followAll_singleton leads).2

/-- From a directory, a name leads to its own entry only by itself. -/
theorem follow_eq_iff {output : String} (step : follow directory name = .ok place)
    (solid : Path.isIdle name = false) (up : output ≠ "..") :
    directory ++ [output] = place ↔ output = name := by
  unfold follow at step
  split at step
  · cases step
  rw [if_neg (by simp [solid])] at step
  split at step
  · cases step
    simp
  next same =>
  replace same : name = ".." := by simpa using same
  rw [same]
  refine ⟨fun here => ?_, fun h => absurd h up⟩
  have longer : directory.length + 1 = place.length := by simp [← here]
  rw [← here] at step
  split at step
  · exact (List.singleton_inj.1 (List.append_cancel_left (Except.ok.inj step))).symm
  split at step
  · rw [here] at step
    cases step
    omega
  · rw [here] at step
    cases step
    rw [List.length_dropLast] at longer
    omega

/-- The last component that is followed to a file changes something. -/
theorem solid_of_followAll {front : List String}
    (h : files.followAll start (front ++ [name]) = .ok place)
    (here : files.entry place = .file content) : Path.isIdle name = false := by
  rw [followAll_append] at h
  obtain ⟨parent, -, behind⟩ := bind_eq_ok_iff.1 h
  obtain ⟨entered, step⟩ := followAll_singleton behind
  cases idle : Path.isIdle name with
  | false => rfl
  | true =>
    rw [follow_idle idle] at step
    cases step
    rw [entered] at here
    cases here

theorem solid_of_locate {above : List String}
    (leads : files.locate (above ++ [name]) = .ok place)
    (here : files.entry place = .file content) : Path.isIdle name = false := by
  by_cases empty : name = ""
  · subst empty
    cases above with
    | nil => cases leads
    | cons first rest =>
      obtain ⟨start, front, located⟩ := locate_behind first
      rw [located] at leads
      exact solid_of_followAll leads here
  · obtain ⟨start, middle, located⟩ := locate_snoc above
    rw [located _ _ empty] at leads
    exact solid_of_followAll leads here

theorem file_of_read {path source : String} (h : files.read path = .ok source) :
    ∃ place content, files.find path = .ok place ∧ files.entry place = .file content ∧
      String.fromUTF8? content = some source := by
  unfold read at h
  cases found : files.find path with
  | error e =>
    rw [found] at h
    cases h
  | ok place =>
    rw [found] at h
    cases here : files.entry place with
    | missing | directory =>
      simp only [here] at h
      cases h
    | file content =>
      simp only [here] at h
      cases text : String.fromUTF8? content with
      | none =>
        rw [text] at h
        cases h
      | some decoded =>
        rw [text] at h
        cases h
        exact ⟨place, content, rfl, here, text⟩

theorem find_eq_ok {path : String} (h : files.find path = .ok place) :
    ¬ path.utf8ByteSize > 4095 ∧ files.locate (Path.components path) = .ok place := by
  unfold find at h
  split at h
  · cases h
  · next short => exact ⟨short, h⟩

/-- A readable file and the file of its name with the extension in the same directory are one file
exactly where the names are the same. -/
theorem place_beside_iff {path source : String} (readable : files.read path = .ok source)
    (leads : files.target (Path.beside path "scss") = .ok other) :
    files.find path = .ok other ↔ Path.NamesOutput (Path.fileName path) := by
  obtain ⟨place, content, found, here, -⟩ := file_of_read readable
  obtain ⟨-, located⟩ := find_eq_ok found
  obtain ⟨above, name, parts⟩ : ∃ above name, Path.components path = above ++ [name] := by
    have some : Path.components path ≠ [] := by simp [Path.components, cutAt_ne_nil]
    exact ⟨_, _, (List.dropLast_concat_getLast some).symm⟩
  rw [parts] at located
  have solid := solid_of_locate located here
  obtain ⟨above', output, directory, writes, rfl⟩ := target_spec leads
  have plain : Path.Unslashed "scss" := (by decide : '/' ∉ "scss".toList)
  have beside := Path.components_beside parts solid plain
  rw [writes.parts] at beside
  obtain ⟨rfl, same⟩ := List.append_inj' beside rfl
  obtain rfl := List.singleton_inj.1 same
  have named : name ≠ "" := by
    rintro rfl
    cases solid
  have step := follow_of_locate named (locate_withoutIdleEnd located) writes.enters
  have name_eq : Path.fileName path = name := by
    rw [Path.fileName, parts, Path.withoutIdleEnd_concat solid, List.getLast?_concat]
    rfl
  rw [found, name_eq, ← Path.besideName_eq_iff, ← follow_eq_iff step solid writes.up]
  exact ⟨fun h => (Except.ok.inj h).symm, fun h => congrArg _ h.symm⟩

/-! ## What a build does to its input -/

/-- Putting a file in leaves the way to a file as it is. -/
theorem find_put_of_file {path : String} (found : files.find path = .ok other)
    (free : files.entry place ≠ .directory) :
    (files.put place content).find path = .ok other := by
  obtain ⟨short, located⟩ := find_eq_ok found
  rw [find, if_neg short]
  unfold locate at located ⊢
  split at located
  · cases located
  · cases located
  · exact followAll_put free located
  · exact followAll_put free located

/-- A file reads as before when another one is put in. -/
theorem read_put_of_ne {path source : String} (readable : files.read path = .ok source)
    (free : files.entry place ≠ .directory) (apart : files.find path ≠ .ok place) :
    (files.put place content).read path = .ok source := by
  obtain ⟨other, old, found, here, text⟩ := file_of_read readable
  have ne : other ≠ place := by
    rintro rfl
    exact apart found
  have entry : (files.put place content).entry other = .file old := by
    unfold Files.entry at here ⊢
    rw [lookup_put, if_neg ne]
    split at here
    · cases here
      rfl
    · split at here <;> cases here
  rw [read, find_put_of_file found free]
  simp only [entry, text]

end Files

/-- A build without an output path leaves its input as it is, unless the input has the name of an
output: a stem that is not empty, and the extension. Such an input is where the output goes, so a
build that succeeds leaves the text of the conversion and a line feed in its place; one that fails
leaves it as it is. -/
theorem build_keeps_source {files : Files} {path source : String} (dialect : String)
    (lenient : Bool) (readable : files.read path = .ok source) :
    (¬ Path.NamesOutput (Path.fileName path) →
        ((Command.build path dialect none lenient).on files).2.read path = .ok source) ∧
      (Path.NamesOutput (Path.fileName path) →
        ((Command.build path dialect none lenient).on files).1.exit ≠ 0 ∧
            ((Command.build path dialect none lenient).on files).2.read path = .ok source ∨
          ((Command.build path dialect none lenient).on files).1.exit = 0 ∧
            ∃ converted, files.conversion path dialect (.ofOption lenient) = some converted ∧
              ((Command.build path dialect none lenient).on files).2.read path =
                .ok (converted.text ++ "\n")) := by
  obtain ⟨nonzero, same⟩ | ⟨converted, other, converts, leads, run⟩ :=
    build_files files path dialect (Option.some_ne_none "-").symm lenient
  · have kept : ((Command.build path dialect none lenient).on files).2.read path = .ok source := by
      rw [same, readable]
    exact ⟨fun _ => kept, fun _ => .inl ⟨nonzero, kept⟩⟩
  · have beside := Files.place_beside_iff readable leads
    obtain ⟨_, _, _, writes, rfl⟩ := Files.target_spec leads
    rw [run]
    refine ⟨fun apart => Files.read_put_of_ne readable writes.free (mt beside.1 apart),
      fun named => .inr ⟨rfl, converted, converts, ?_⟩⟩
    exact Files.read_put_self (Files.find_put_of_file (beside.2 named) writes.free)

/-- An input with two dots in its name behind two slashes is kept; one with the extension of an
output is replaced. -/
theorem build_keeps_source_dotted :
    ((Command.build "src//a.b.styl" "scss" none false).on
        [(["src", "a.b.styl"], "a\n  color red".toUTF8)]).2.read "src//a.b.styl" =
          .ok "a\n  color red" ∧
      ∃ converted, Files.conversion [(["a.scss"], "a\n  color red".toUTF8)] "./a.scss" "scss"
          (.ofOption false) = some converted ∧
        ((Command.build "./a.scss" "scss" none false).on
          [(["a.scss"], "a\n  color red".toUTF8)]).2.read "./a.scss" =
            .ok (converted.text ++ "\n") := by
  have other : ¬ Path.NamesOutput (Path.fileName "src//a.b.styl") :=
    mt Path.besideName_eq_iff.2 (by decide +kernel)
  have named : Path.NamesOutput (Path.fileName "./a.scss") :=
    Path.besideName_eq_iff.1 (by decide +kernel)
  have built : ((Command.build "./a.scss" "scss" none false).on
      [(["a.scss"], "a\n  color red".toUTF8)]).1.exit = 0 := by
    decide +kernel
  have readable : Files.read [(["a.scss"], "a\n  color red".toUTF8)] "./a.scss" =
      .ok "a\n  color red" := by
    decide +kernel
  refine ⟨(build_keeps_source "scss" false (by decide +kernel)).1 other, ?_⟩
  exact (((build_keeps_source "scss" false readable).2 named).resolve_left
    fun failed => failed.1 built).2

/-- A build can leave another text where its input was: that of an input with the extension of an
output. -/
theorem build_replaces_source :
    ¬ ∀ (files : Files) (path source dialect : String) (target : Dialect) (lenient : Bool),
      files.read path = .ok source → Dialect.ofName dialect = .ok target →
        ((Command.build path dialect none lenient).on files).2.read path = .ok source := by
  intro unchanged
  have kept := unchanged [(["a.scss"], "a\n  color red".toUTF8)] "a.scss" "a\n  color red" "scss"
    .scss false (by decide +kernel) (by decide +kernel)
  have replaced : ((Command.build "a.scss" "scss" none false).on
      [(["a.scss"], "a\n  color red".toUTF8)]).2.read "a.scss" =
        .ok "a \x7b\n  color: red;\n\x7d\n" := by
    decide +kernel
  rw [kept] at replaced
  exact absurd replaced (by decide)

end StylusToScss
