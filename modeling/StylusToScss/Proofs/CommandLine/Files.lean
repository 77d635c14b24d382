import StylusToScss.CommandLine.Disk
import StylusToScss.Proofs.Except

/-!
# Writing a file and reading it back

The path of a file to be written is followed up to the directory of the file, the path of a file to
be read up to the file itself. Putting in the file leaves every directory on the way as it was, so
the same path leads to it afterwards.

* `Files.find_put`: where a path is written to, it is read from.
* `Files.write_cases`: a write fails, or puts one file in at the place that the path names.
-/

namespace StylusToScss

/-- The last piece of a list that does not end with a separator holds its last item. -/
theorem cutAt_snoc {α : Type} {p : α → Bool} {item : α} (plain : p item = false) (items : List α) :
    ∃ pieces piece, cutAt p (items ++ [item]) = pieces ++ [piece ++ [item]] := by
  induction items with
  | nil => exact ⟨[], [], by simp [cutAt, plain, consPiece]⟩
  | cons first rest ih =>
    obtain ⟨pieces, piece, cut⟩ := ih
    rw [List.cons_append, cutAt, cut]
    split
    · exact ⟨[] :: pieces, piece, rfl⟩
    · cases pieces with
      | nil => exact ⟨[], first :: piece, rfl⟩
      | cons other pieces => exact ⟨(first :: other) :: pieces, piece, rfl⟩

/-- A path that does not end with a slash is divided before its last component. -/
theorem Path.divide_spec {path : String} (given : path ≠ "")
    (unended : path.toList.getLast? ≠ some '/') :
    ∃ above name, name ≠ "" ∧ components path = above ++ [name] ∧
      divide path = (above ++ ["."], name) := by
  obtain ⟨items, item, text⟩ : ∃ items item, path.toList = items ++ [item] := by
    have written : path.toList ≠ [] := by simpa using given
    exact ⟨_, _, (List.dropLast_concat_getLast written).symm⟩
  have plain : (item == '/') = false := by
    rw [text, List.getLast?_concat] at unended
    exact beq_false_of_ne fun h => unended (congrArg some h)
  obtain ⟨pieces, piece, cut⟩ := cutAt_snoc (p := (· == '/')) plain items
  have parts : components path =
      pieces.map String.ofList ++ [String.ofList (piece ++ [item])] := by
    rw [components, text, cut, List.map_append, List.map_singleton]
  have named : String.ofList (piece ++ [item]) ≠ "" := by simp
  refine ⟨_, _, named, parts, ?_⟩
  have whole : ((components path).reverse.dropWhile (· == "")).reverse = components path := by
    rw [parts, List.reverse_append, List.reverse_singleton, List.singleton_append,
      List.dropWhile_cons_of_neg (by simp), List.reverse_cons, List.reverse_reverse]
  rw [divide, whole, if_neg unended, parts, List.dropLast_concat, List.getLast?_concat]
  rfl

namespace Files

variable {files : Files} {place : Place} {content : ByteArray}

/-! ## Directories -/

theorem any_put (p : Place → Bool) (h : files.any (p ·.1) = true) :
    (files.put place content).any (p ·.1) = true := by
  unfold put
  split
  · rw [replace, List.any_map]
    exact h
  · rw [List.any_append, h, Bool.true_or]

/-- A directory stays one when a file is put in elsewhere. -/
theorem entry_put {other : Place} (directory : files.entry other = .directory)
    (apart : other ≠ place) : (files.put place content).entry other = .directory := by
  unfold entry at directory ⊢
  rw [lookup_put, if_neg apart]
  split at directory
  · cases directory
  · split at directory
    · next holds => exact if_pos (holds.imp_right (.imp_right (any_put _)))
    · cases directory

theorem entry_put_self : (files.put place content).entry place = .file content := by
  rw [entry, lookup_put, if_pos rfl]

/-! ## Following a path -/

theorem followAll_append (start : Place) (front back : List String) :
    files.followAll start (front ++ back) =
      (files.followAll start front).bind fun next => files.followAll next back := by
  induction front generalizing start with
  | nil => rfl
  | cons component rest ih =>
    rw [List.cons_append, followAll, followAll]
    cases files.entry start with
    | file | missing => rfl
    | directory =>
      cases follow start component with
      | error => rfl
      | ok next => exact ih next

/-- What is followed through directories is followed in the same way when a file is put in where
there is no directory. -/
theorem followAll_put {start next : Place} {components : List String}
    (free : files.entry place ≠ .directory) (h : files.followAll start components = .ok next) :
    (files.put place content).followAll start components = .ok next := by
  induction components generalizing start with
  | nil => exact h
  | cons component rest ih =>
    rw [followAll] at h ⊢
    cases here : files.entry start with
    | file | missing =>
      rw [here] at h
      cases h
    | directory =>
      have apart : start ≠ place := by
        rintro rfl
        exact free here
      rw [here] at h
      rw [entry_put here apart]
      cases step : follow start component with
      | error =>
        rw [step] at h
        cases h
      | ok next =>
        rw [step] at h
        exact ih h

/-- Where a path of several components starts is settled by the first of them. -/
theorem locate_behind (first : String) : ∃ start front,
    ∀ (files : Files) (rest : List String) (last : String),
      files.locate (first :: rest ++ [last]) = files.followAll start (front ++ rest ++ [last]) := by
  by_cases empty : first = ""
  · refine ⟨root, [], fun files rest last => ?_⟩
    cases rest <;> simp [locate, empty]
  · refine ⟨[], [first], fun files rest last => ?_⟩
    simp [locate, empty]

/-- Which components are followed, and from where, is settled before the last one. -/
theorem locate_snoc (above : List String) :
    ∃ start middle, ∀ (files : Files) (last : String), last ≠ "" →
      files.locate (above ++ [last]) = files.followAll start (middle ++ [last]) := by
  cases above with
  | nil =>
    refine ⟨[], [], fun files last named => ?_⟩
    simp [locate, named]
  | cons first rest =>
    obtain ⟨start, front, located⟩ := locate_behind first
    exact ⟨start, front ++ rest, fun files last _ => located files rest last⟩

/-- Components with a dot behind them lead to a directory, and every other last component is followed
from there. -/
theorem enters_spec {above : List String} {directory : Place}
    (enters : files.locate (above ++ ["."]) = .ok directory) : ∃ start middle,
      (∀ (files : Files) (last : String), last ≠ "" →
        files.locate (above ++ [last]) = files.followAll start (middle ++ [last])) ∧
      files.followAll start middle = .ok directory ∧ files.entry directory = .directory := by
  obtain ⟨start, middle, located⟩ := locate_snoc above
  rw [located _ _ (by decide), followAll_append] at enters
  obtain ⟨parent, way, stay⟩ := bind_eq_ok_iff.1 enters
  replace stay : files.followAll parent ["."] = .ok directory := stay
  rw [followAll] at stay
  cases entered : files.entry parent with
  | file | missing =>
    rw [entered] at stay
    cases stay
  | directory =>
    rw [entered] at stay
    cases stay
    exact ⟨start, middle, located, way, entered⟩

theorem target_eq_ok {path : String} (h : files.target path = .ok place) :
    path ≠ "" ∧ ¬ path.utf8ByteSize > 4095 ∧
      ∃ directory, files.locate (Path.divide path).1 = .ok directory ∧
        files.placeIn (Path.divide path).2 directory = .ok place := by
  unfold target at h
  split at h
  · cases h
  next given =>
  split at h
  · cases h
  next short => exact ⟨given, short, bind_eq_ok_iff.1 h⟩

theorem placeIn_eq_ok {name : String} {directory : Place}
    (h : files.placeIn name directory = .ok place) :
    name ≠ "" ∧ ¬ name.utf8ByteSize > 255 ∧ name ≠ ".." ∧ Path.isIdle name = false ∧
      files.entry place ≠ .directory ∧ place = directory ++ [name] := by
  unfold placeIn at h
  split at h
  · cases h
  next named =>
  split at h
  · cases h
  next short =>
  split at h
  · cases h
  next free =>
  cases h
  have ⟨unnamed, dot, up⟩ : name ≠ "" ∧ name ≠ "." ∧ name ≠ ".." := by
    simpa only [not_or] using named
  refine ⟨unnamed, short, up, by simp [Path.isIdle, unnamed, dot], ?_, rfl⟩
  intro directory
  simp [directory] at free

/-- The place of the file to be written at a path: the last component names it, in the directory that
the ones before it lead to. -/
structure WritesIn (files : Files) (path : String) (above : List String) (name : String)
    (directory : Place) : Prop where
  parts : Path.components path = above ++ [name]
  short : ¬ path.utf8ByteSize > 4095
  enters : files.locate (above ++ ["."]) = .ok directory
  brief : ¬ name.utf8ByteSize > 255
  up : name ≠ ".."
  solid : Path.isIdle name = false
  free : files.entry (directory ++ [name]) ≠ .directory

theorem target_spec {path : String} (h : files.target path = .ok place) :
    ∃ above name directory, WritesIn files path above name directory ∧
      place = directory ++ [name] := by
  obtain ⟨given, short, directory, leads, placed⟩ := target_eq_ok h
  obtain ⟨unnamed, brief, up, solid, free, rfl⟩ := placeIn_eq_ok placed
  have unended : path.toList.getLast? ≠ some '/' := by
    intro h
    rw [Path.divide, if_pos h] at unnamed
    exact unnamed rfl
  obtain ⟨above, name, -, parts, divided⟩ := Path.divide_spec given unended
  rw [divided] at leads brief up solid free ⊢
  exact ⟨above, name, directory, ⟨parts, short, leads, brief, up, solid, free⟩, rfl⟩

/-- Where a file is put at the place that a path names, the path leads there. -/
theorem find_put {path : String} (h : files.target path = .ok place) :
    (files.put place content).find path = .ok place := by
  obtain ⟨above, name, directory, writes, rfl⟩ := target_spec h
  have named : name ≠ "" := by
    rintro rfl
    cases writes.solid
  obtain ⟨start, middle, located, way, entered⟩ := enters_spec writes.enters
  have apart : directory ≠ directory ++ [name] := by simp
  rw [find, if_neg writes.short, writes.parts, located _ _ named, followAll_append,
    followAll_put writes.free way]
  show followAll _ directory [name] = _
  rw [followAll, entry_put entered apart, follow, if_neg writes.brief,
    if_neg (by simp [writes.solid]), if_pos writes.up]
  rfl

/-- A path that leads to a text that has been put in reads as that text. -/
theorem read_put_self {path text : String}
    (found : (files.put place text.toUTF8).find path = .ok place) :
    (files.put place text.toUTF8).read path = .ok text := by
  have decoded : String.fromUTF8? text.toUTF8 = some text := dif_pos text.isValidUTF8
  rw [read, found]
  simp only [entry_put_self, decoded]

theorem read_put {path text : String} (h : files.target path = .ok place) :
    (files.put place text.toUTF8).read path = .ok text :=
  read_put_self (find_put h)

/-- A write fails, or it puts one file in at the place that the path names. -/
theorem write_cases (files : Files) (path text : String) :
    (∃ e, files.write path text = .error e) ∨
      ∃ place, files.target path = .ok place ∧
        files.write path text = .ok (files.put place text.toUTF8) := by
  unfold write
  cases files.target path with
  | error e => exact .inl ⟨e, rfl⟩
  | ok place => exact .inr ⟨place, rfl, rfl⟩

end Files
end StylusToScss
