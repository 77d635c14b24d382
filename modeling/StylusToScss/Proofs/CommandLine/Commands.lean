import StylusToScss.CommandLine.Run
import StylusToScss.Proofs.CommandLine.Files

/-!
# What the commands do

`build` and `check` go through the same steps in different orders, so they agree on which files can
be converted. Both leave the files as they are, apart from a build that succeeds: it puts one file
in, at the place that its output path names.

* `Files.conversion` says what a file is converted to.
* `check_cases` and `build_cases` say what one run of a command comes to.
* `commands_agree` compares the two commands and says what they leave behind.
-/

namespace StylusToScss

/-- A command on a set of files: what it comes to, and the files after it. -/
def Command.on (command : Command) (files : Files) : Outcome × Files :=
  (command.run Files.disk).run files

/-- The policy that the option to leave out unsupported constructs chooses. -/
def Policy.ofOption (lenient : Bool) : Policy := if lenient then .lenient else .strict

/-- The output path of a build, if there is one: the given path, or the one beside the input. -/
def outputPath (path : String) (out : Option String) : String :=
  out.getD (Path.beside path "scss")

/-- What the file at a path is converted to in the dialect of a name, if there is such a file and
such a dialect. -/
def Files.conversion (files : Files) (path dialect : String) (policy : Policy) :
    Option Converted := do
  let source ← (files.read path).toOption
  let target ← (Dialect.ofName dialect).toOption
  (convert ⟨target, policy⟩ source).toOption

variable (files : Files) (path dialect : String)

/-! ## The steps that the commands share -/

theorem Files.present_of_read {source : String} (h : files.read path = .ok source) :
    files.present path = true := by
  unfold Files.read at h
  unfold Files.present
  cases found : files.find path with
  | error e =>
    rw [found] at h
    cases h
  | ok place =>
    cases here : files.entry place with
    | file | directory => simp [here]
    | missing =>
      simp only [found, here] at h
      cases h

/-- Reading a source leaves the files as they are to what follows, and fails with status one where
there is no text. -/
theorem readSource_cases :
    (∃ source, files.read path = .ok source ∧ ∀ next : _ → StateM Files Outcome,
        (readSource Files.disk path >>= next).run files = (next (.ok source)).run files) ∨
      ∃ e line, files.read path = .error e ∧ ∀ next : _ → StateM Files Outcome,
        (readSource Files.disk path >>= next).run files =
          (next (.error (.failed 1 line))).run files := by
  unfold readSource Files.disk
  cases text : files.read path with
  | ok source =>
    refine .inl ⟨source, rfl, fun next => ?_⟩
    simp [files.present_of_read path text, text]
  | error e =>
    cases there : files.present path with
    | false => exact .inr ⟨e, _, rfl, fun next => by simp [there]; rfl⟩
    | true => exact .inr ⟨e, _, rfl, fun next => by simp [there, text]; rfl⟩

theorem chooseDialect_cases :
    (∃ target, Dialect.ofName dialect = .ok target ∧ chooseDialect dialect = .ok target) ∨
      ∃ e line, Dialect.ofName dialect = .error e ∧
        chooseDialect dialect = .error (.failed 2 line) := by
  unfold chooseDialect
  cases Dialect.ofName dialect with
  | ok target => exact .inl ⟨target, rfl, rfl⟩
  | error e => exact .inr ⟨e, _, rfl, rfl⟩

/-! ## One run of a command -/

/-- A run that fails leaves the files as they are. -/
def Fails (run : Outcome × Files) : Prop := run.1.exit ≠ 0 ∧ run.2 = files

theorem fails_at (status : Nat) (line : String) :
    Fails files (.failed (status + 1) line, files) :=
  ⟨Nat.succ_ne_zero status, rfl⟩

theorem conversion_eq {source : String} {target : Dialect} (policy : Policy)
    (text : files.read path = .ok source) (known : Dialect.ofName dialect = .ok target) :
    files.conversion path dialect policy = (convert ⟨target, policy⟩ source).toOption := by
  rw [Files.conversion, text, known]
  rfl

theorem conversion_of_unread {e : FileError} (policy : Policy)
    (text : files.read path = .error e) : files.conversion path dialect policy = none := by
  rw [Files.conversion, text]
  rfl

theorem conversion_of_unknown {e : ConversionError} (policy : Policy)
    (unknown : Dialect.ofName dialect = .error e) :
    files.conversion path dialect policy = none := by
  rw [Files.conversion, unknown]
  cases files.read path <;> rfl

theorem check_cases :
    (∃ converted, files.conversion path dialect .strict = some converted ∧
        (Command.check path dialect).on files =
          (.done ("OK: " ++ path) converted.warnings, files)) ∨
      files.conversion path dialect .strict = none ∧
        Fails files ((Command.check path dialect).on files) := by
  unfold Command.on Command.run runCheck
  obtain ⟨source, text, read⟩ | ⟨e, line, text, read⟩ := readSource_cases files path
  · rw [read]
    obtain ⟨target, known, chosen⟩ | ⟨e, line, unknown, failed⟩ := chooseDialect_cases dialect
    · rw [conversion_eq files path dialect .strict text known, convert]
      simp only [chosen]
      cases Stylesheet.ofSource source with
      | error fault => exact .inr ⟨rfl, fails_at files 0 _⟩
      | ok sheet =>
        simp only
        cases sheet.convert ⟨target, .strict⟩ with
        | error e => exact .inr ⟨rfl, fails_at files 0 _⟩
        | ok converted => exact .inl ⟨converted, rfl, rfl⟩
    · simp only [failed]
      refine .inr ⟨conversion_of_unknown files path dialect .strict unknown, ?_⟩
      cases Stylesheet.ofSource source with
      | error fault => exact fails_at files 0 _
      | ok sheet => exact fails_at files 1 _
  · rw [read]
    exact .inr ⟨conversion_of_unread files path dialect .strict text, fails_at files 0 line⟩

theorem write_run (target : String) (converted : Converted) :
    Fails files ((writeOutput Files.disk target converted).run files) ∨
      ∃ place, files.target target = .ok place ∧
        (writeOutput Files.disk target converted).run files =
          (.done ("Built: " ++ target) converted.warnings,
            files.put place (converted.text ++ "\n").toUTF8) := by
  obtain ⟨e, failed⟩ | ⟨place, leads, written⟩ :=
    files.write_cases target (converted.text ++ "\n")
  · have run : (writeOutput Files.disk target converted).run files =
        (.failed 1 ("Error writing " ++ target ++ ": " ++ e.message), files) := by
      simp [writeOutput, Files.disk, failed]
      rfl
    rw [run]
    exact .inl (fails_at files 0 _)
  · refine .inr ⟨place, leads, ?_⟩
    simp [writeOutput, Files.disk, written]
    rfl

theorem build_cases (out : Option String) (lenient : Bool) :
    files.conversion path dialect (.ofOption lenient) = none ∧
        Fails files ((Command.build path dialect out lenient).on files) ∨
      ∃ converted, files.conversion path dialect (.ofOption lenient) = some converted ∧
        (Command.build path dialect out lenient).on files =
          if out = some "-" then (.printed (converted.text ++ "\n") converted.warnings, files)
          else (writeOutput Files.disk (outputPath path out) converted).run files := by
  unfold Command.on Command.run runBuild
  obtain ⟨source, text, read⟩ | ⟨e, line, text, read⟩ := readSource_cases files path
  · rw [read]
    obtain ⟨target, known, chosen⟩ | ⟨e, line, unknown, failed⟩ := chooseDialect_cases dialect
    · rw [conversion_eq files path dialect _ text known]
      simp only [chosen, Policy.ofOption]
      cases convert ⟨target, if lenient then .lenient else .strict⟩ source with
      | error e => exact .inl ⟨rfl, fails_at files 0 _⟩
      | ok converted =>
        refine .inr ⟨converted, rfl, ?_⟩
        simp only
        split <;> rfl
    · simp only [failed]
      exact .inl ⟨conversion_of_unknown files path dialect _ unknown, fails_at files 1 line⟩
  · rw [read]
    exact .inl ⟨conversion_of_unread files path dialect _ text, fails_at files 0 line⟩

/-! ## Both commands -/

theorem check_exit : ((Command.check path dialect).on files).1.exit = 0 ↔
    (files.conversion path dialect .strict).isSome := by
  obtain ⟨converted, converts, run⟩ | ⟨converts, nonzero, -⟩ := check_cases files path dialect
  · simp [converts, run, Outcome.done]
  · simp [converts, nonzero]

theorem check_files : ((Command.check path dialect).on files).2 = files := by
  obtain ⟨converted, -, run⟩ | ⟨-, -, same⟩ := check_cases files path dialect
  · rw [run]
  · exact same

/-- A build to the standard output prints the text of the conversion, and writes no file. -/
theorem print_cases (lenient : Bool) :
    files.conversion path dialect (.ofOption lenient) = none ∧
        Fails files ((Command.build path dialect (some "-") lenient).on files) ∨
      ∃ converted, files.conversion path dialect (.ofOption lenient) = some converted ∧
        (Command.build path dialect (some "-") lenient).on files =
          (.printed (converted.text ++ "\n") converted.warnings, files) :=
  build_cases files path dialect (some "-") lenient

theorem print_exit (lenient : Bool) :
    ((Command.build path dialect (some "-") lenient).on files).1.exit = 0 ↔
      (files.conversion path dialect (.ofOption lenient)).isSome := by
  obtain ⟨converts, nonzero, -⟩ | ⟨converted, converts, run⟩ :=
    print_cases files path dialect lenient
  · simp [converts, nonzero]
  · simp [converts, run, Outcome.printed]

/-- A build to a file fails, or puts the text of the conversion in at the place that the output path
names. -/
theorem build_files {out : Option String} (named : out ≠ some "-") (lenient : Bool) :
    Fails files ((Command.build path dialect out lenient).on files) ∨
      ∃ converted place,
        files.conversion path dialect (.ofOption lenient) = some converted ∧
        files.target (outputPath path out) = .ok place ∧
        (Command.build path dialect out lenient).on files =
          (.done ("Built: " ++ outputPath path out) converted.warnings,
            files.put place (converted.text ++ "\n").toUTF8) := by
  obtain ⟨-, fails⟩ | ⟨converted, converts, run⟩ := build_cases files path dialect out lenient
  · exact .inl fails
  · rw [run, if_neg named]
    obtain fails | ⟨place, leads, run⟩ := write_run files (outputPath path out) converted
    · exact .inl fails
    · exact .inr ⟨converted, place, converts, leads, run⟩

/-- `check` succeeds exactly where a strict build that prints its result does, and that build then
prints the text and a line feed. A check, a build that fails and a build that prints leave the files
as they are. Any other build makes one change: what is read from its output path is the text for its
options and a line feed. -/
theorem commands_agree (files : Files) (path dialect : String) (out : Option String)
    (lenient : Bool) :
    (((Command.check path dialect).on files).1.exit = 0 ↔
        ((Command.build path dialect (some "-") false).on files).1.exit = 0) ∧
      (((Command.build path dialect (some "-") false).on files).1.exit = 0 →
        ∃ converted, files.conversion path dialect .strict = some converted ∧
          ((Command.build path dialect (some "-") false).on files).1.output =
            converted.text ++ "\n") ∧
      ((Command.check path dialect).on files).2 = files ∧
      (((Command.build path dialect out lenient).on files).1.exit ≠ 0 ∨ out = some "-" →
        ((Command.build path dialect out lenient).on files).2 = files) ∧
      (((Command.build path dialect out lenient).on files).1.exit = 0 → out ≠ some "-" →
        ∃ converted place,
          files.conversion path dialect (.ofOption lenient) = some converted ∧
          files.target (outputPath path out) = .ok place ∧
          ((Command.build path dialect out lenient).on files).2.read (outputPath path out) =
            .ok (converted.text ++ "\n") ∧
          ∀ other, other ≠ place →
            ((Command.build path dialect out lenient).on files).2.lookup other =
              files.lookup other) := by
  refine ⟨?_, fun printed => ?_, check_files files path dialect, fun quiet => ?_,
    fun built named => ?_⟩
  · exact (check_exit files path dialect).trans (print_exit files path dialect false).symm
  · obtain ⟨-, nonzero, -⟩ | ⟨converted, converts, run⟩ := print_cases files path dialect false
    · exact absurd printed nonzero
    · exact ⟨converted, converts, congrArg (·.1.output) run⟩
  · by_cases named : out = some "-"
    · subst named
      obtain ⟨-, -, same⟩ | ⟨converted, -, run⟩ := print_cases files path dialect lenient
      · exact same
      · exact congrArg Prod.snd run
    · obtain ⟨-, same⟩ | ⟨converted, place, -, -, run⟩ :=
        build_files files path dialect named lenient
      · exact same
      · obtain nonzero | printed := quiet
        · exact absurd (congrArg (·.1.exit) run) nonzero
        · exact absurd printed named
  · obtain ⟨nonzero, -⟩ | ⟨converted, place, converts, leads, run⟩ :=
      build_files files path dialect named lenient
    · exact absurd built nonzero
    · have after : ((Command.build path dialect out lenient).on files).2 =
          files.put place (converted.text ++ "\n").toUTF8 := congrArg Prod.snd run
      refine ⟨converted, place, converts, leads, ?_, fun other apart => ?_⟩
      · rw [after]
        exact Files.read_put leads
      · rw [after, Files.lookup_put, if_neg apart]

end StylusToScss
