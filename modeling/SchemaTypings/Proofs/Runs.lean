import SchemaTypings.Proofs.Writing

/-!
# What a run leaves behind

A run that fails keeps what was written before the failure and nothing more; one that succeeds has
written every file.  The formatter is a function here, and compiling leaves the files alone, as it
is if the programs neither see nor change them.
-/

namespace SchemaTypings.Run

open SchemaTypings.Generation SchemaTypings.Json

/-! ### Jobs with programs -/

/-- A job that compiles without changing files and formats by a function. -/
structure Job.Quiet (job : Job) (format : Options → String → Except Failure String) : Prop where
  compile : ∀ fs, (job.compile.on fs).2 = fs
  formatter : ∀ options formatter, job.formatter options = .ok formatter →
    ∀ text fs, (formatter text).on fs = (format options text, fs)

/-- Programs that neither see nor change the files. -/
def Toolbox.Blind (tools : Toolbox) : Prop := ∀ program arguments input fs other,
  tools program arguments input other =
    (tools program arguments input fs).map fun outcome => { outcome with files := other }

section Programs

variable {tools : Toolbox}

theorem Toolbox.Blind.start (h : tools.Blind) (program : String) (arguments : List String)
    (input : Text.Bytes) (fs other : FileSystem) :
    tools.start program arguments input other =
      (tools.start program arguments input fs).map fun outcome =>
        { outcome with files := other } := by
  unfold Toolbox.start
  split
  · exact h program arguments input fs other
  · rfl

/-- To start a blind program changes nothing. -/
theorem Toolbox.Blind.on_start (h : tools.Blind) (program : String) (arguments : List String)
    (input : Text.Bytes) (fs : FileSystem) :
    (Run.start tools program arguments input).on fs =
      (.ok (tools.start program arguments input fs), fs) := by
  have hfiles := h.start program arguments input fs fs
  simp only [Run.start, Running.on_bind, Running.on_get]
  cases houtcome : tools.start program arguments input fs with
  | none => rfl
  | some outcome =>
    rw [houtcome] at hfiles
    have hsame : outcome.files = fs := congrArg Outcome.files (Option.some.inj hfiles)
    simp only [Running.on_bind, Running.on_set, Running.on_pure, hsame]

/-- What a formatter makes of a text does not depend on the files that its program leaves. -/
theorem formatted_map_files (program : String) (arguments : List String) (size : Nat)
    (outcome : Option Outcome) (fs : FileSystem) :
    Formatter.formatted program arguments size
        (outcome.map fun outcome => { outcome with files := fs }) =
      Formatter.formatted program arguments size outcome := by
  cases outcome <;> rfl

/-- What the formatter that options ask for makes of a text. -/
def formatOf (tools : Toolbox) (options : Options) (text : String) : Except Failure String :=
  (Formatter.ofOptions tools options).bind fun formatter => ((formatter text).on .empty).1

/-- A formatter with a blind program is a function. -/
theorem Toolbox.Blind.on_formatter (h : tools.Blind) {options : Options} {formatter : Formatter}
    (hformatter : Formatter.ofOptions tools options = .ok formatter) (text : String)
    (fs : FileSystem) : (formatter text).on fs = (formatOf tools options text, fs) := by
  have hformat : formatOf tools options text = ((formatter text).on .empty).1 := by
    rw [formatOf, hformatter]
    rfl
  rw [hformat]
  unfold Formatter.ofOptions Formatter.ofCommand at hformatter
  split at hformatter
  · split at hformatter
    · cases hformatter
    · next program arguments _ =>
      cases hformatter
      simp only [Formatter.ofProgram, Running.on_bind, h.on_start, Running.on_ofResult]
      rw [h.start program arguments _ .empty fs, formatted_map_files]
  · cases hformatter
    simp only [Formatter.unchanged, Formatter.ofFunction, Running.on_ofResult]

/-- To compile with a blind program changes nothing. -/
theorem Toolbox.Blind.on_compile (h : tools.Blind) (compiler : Compiler) (model : String)
    (fs : FileSystem) : ((compiler.compile tools model).on fs).2 = fs := by
  cases compiler with
  | precompiled => rw [Compiler.compile_precompiled_on]
  | command program =>
    simp only [Compiler.compile, Compiler.load, Running.on_bind, h.on_start, Running.on_ofResult]
    cases Compiler.loadOutput program model
      (tools.start program ["compile", model, "--to", "json"] [] fs) <;> rfl

/-- A job whose programs are blind is quiet. -/
theorem Job.quiet_of (h : tools.Blind) (options : FileSystem → Except Failure Options)
    (compiler : Compiler) (model directory : String) :
    (Job.of tools options compiler model directory).Quiet (formatOf tools) :=
  ⟨h.on_compile compiler model, fun _ _ hformatter => h.on_formatter hformatter⟩

end Programs

/-! ### Runs -/

namespace Job

/-- A job has its options, its schema and what is generated from it. -/
structure Prepares (job : Job) (fs : FileSystem) (options : Options) (schema : Value)
    (output : Output) : Prop where
  reads : job.options fs = .ok options
  compiles : (job.compile.on fs).1 = .ok schema
  generates : typings options schema = .ok output

/-- The text of the dump that options ask for. -/
def dumpText (options : Options) (schema : Value) : Option String :=
  if options.dumpJson then some schema.indented else none

/-- How a job ends on a file system: where, with which result and with what is left. -/
inductive Ends (job : Job) (format : Options → String → Except Failure String)
    (fs : FileSystem) : Except Failure Report → FileSystem → Prop where
  | options {failure : Failure} (fails : job.options fs = .error failure) :
      Ends job format fs (.error failure) fs
  | compile {options : Options} {failure : Failure} (reads : job.options fs = .ok options)
      (fails : (job.compile.on fs).1 = .error failure) : Ends job format fs (.error failure) fs
  | typings {options : Options} {schema : Value} {fault : Schema.Fault}
      (reads : job.options fs = .ok options) (compiles : (job.compile.on fs).1 = .ok schema)
      (fails : typings options schema = .error fault) :
      Ends job format fs (.error (.schema fault)) fs
  | dump {options : Options} {schema : Value} {output : Output}
      (prepares : job.Prepares fs options schema output) (dumps : options.dumpJson = true)
      (nowhere : fs.key? (dumpPath job.directory) = none) :
      Ends job format fs (.error (.output (.unwritable (dumpPath job.directory)))) fs
  | formatter {options : Options} {schema : Value} {output : Output} {failure : Failure}
      {after : FileSystem} (prepares : job.Prepares fs options schema output)
      (fails : job.formatter options = .error failure)
      (leaves : Leaves fs job.directory (dumpText options schema) [] after) :
      Ends job format fs (.error failure) after
  | directory {options : Options} {schema : Value} {output : Output} {formatter : Formatter}
      {after : FileSystem} (prepares : job.Prepares fs options schema output)
      (formats : job.formatter options = .ok formatter)
      (missing : fs.isDirectory job.directory = false)
      (leaves : Leaves fs job.directory (dumpText options schema) [] after) :
      Ends job format fs (.error (.output (.notADirectory job.directory))) after
  | files {options : Options} {schema : Value} {output : Output} {formatter : Formatter}
      {after : FileSystem} {formatted : List (RenderedFile × String)}
      {result : Except Failure (List String)} (prepares : job.Prepares fs options schema output)
      (formats : job.formatter options = .ok formatter)
      (present : fs.isDirectory job.directory = true)
      (ends : FilesEnd (format options) fs job.directory output.files formatted result)
      (leaves : Leaves fs job.directory (dumpText options schema) formatted after) :
      Ends job format fs (result.map fun written => ⟨written, output.warnings⟩) after

end Job

/-- Every generated file has a name like those of files. -/
theorem isFileName_of_typings {options : Options} {schema : Value} {output : Output}
    (h : typings options schema = .ok output) :
    ∀ file ∈ output.files, IsFileName file.fileName := by
  unfold typings at h
  intro file hfile
  cases ht : Schema.ScopeTable.ofSchema schema with
  | error fault => rw [ht] at h; cases h
  | ok t =>
    rw [ht] at h
    cases h
    obtain ⟨generated, hgenerated, rfl⟩ := List.mem_map.1 hfile
    obtain ⟨drafted, hdrafted, rfl⟩ := List.mem_map.1 hgenerated
    obtain ⟨o, -, rfl⟩ := List.mem_map.1 hdrafted
    exact ⟨options.displayName o.name, rfl⟩

namespace Job

variable {job : Job} {format : Options → String → Except Failure String}

/-- What a job does after the dump. -/
def finish (job : Job) (options : Options) (output : Output) : Running Report := do
  let formatter ← ofResult (job.formatter options)
  let written ← writeOutput formatter job.directory output.files
  return ⟨written, output.warnings⟩

/-- After the dump a job ends with what was written until then. -/
theorem finish_ends (hquiet : job.Quiet format) {fs next : FileSystem} {options : Options}
    {schema : Value} {output : Output} (hprepares : job.Prepares fs options schema output)
    (hdump : Wrote fs (dumpsOf job.directory (dumpText options schema)) next) :
    job.Ends format fs ((job.finish options output).on next).1
      ((job.finish options output).on next).2 := by
  have hleaves : Leaves fs job.directory (dumpText options schema) [] next :=
    Wrote.leaves (by rwa [writesOf, List.map_nil, List.append_nil]) (by simp)
  simp only [finish, Running.on_bind, Running.on_ofResult]
  cases hformatter : job.formatter options with
  | error failure => exact .formatter hprepares hformatter hleaves
  | ok formatter =>
    simp only [writeOutput, Running.on_bind, Running.on_get, hdump.sameFolders.isDirectory]
    cases hdirectory : fs.isDirectory job.directory with
    | false => exact .directory hprepares hformatter hdirectory hleaves
    | true =>
      obtain ⟨formatted, hends, hwrote⟩ := on_writeFiles (hquiet.formatter options formatter
        hformatter) job.directory output.files next
      have hnames : ∀ entry ∈ formatted, IsFileName entry.1.fileName := fun entry hentry =>
        isFileName_of_typings hprepares.generates _ (hends.mem_files entry hentry)
      -- the files are written on what the dump leaves; both are told about the files before it
      have hfiles := Ends.files hprepares hformatter hdirectory (hends.congr hdump.sameFolders)
        ((hdump.append hwrote).leaves hnames)
      rw [if_pos rfl]
      revert hfiles
      rcases (writeFiles formatter job.directory output.files).on next with ⟨_ | _, _⟩ <;> exact id

/-- **What a run leaves behind.**  A run that fails before it writes the dump changes nothing; one
that fails after it leaves the dump, if it is asked for, and the files before the one that cannot be
formatted or written; one that does not fail leaves all of them and reports their paths.  Each path
holds the formatted text of the last file written there, and everything else is as it was. -/
theorem run_ends (hquiet : job.Quiet format) (fs : FileSystem) :
    job.Ends format fs (job.run.on fs).1 (job.run.on fs).2 := by
  -- nothing is written before the dump, so the stages up to it fail on the files as they were
  have hcompile : job.compile.on fs = ((job.compile.on fs).1, fs) :=
    Prod.ext rfl (hquiet.compile fs)
  simp only [run, Running.on_bind, Running.on_get, Running.on_ofResult]
  cases hoptions : job.options fs with
  | error failure => exact .options hoptions
  | ok options =>
    simp only
    rw [hcompile]
    cases hschema : (job.compile.on fs).1 with
    | error failure => exact .compile hoptions hschema
    | ok schema =>
      simp only
      cases houtput : typings options schema with
      | error fault => exact .typings hoptions hschema houtput
      | ok output =>
        have hprepares : job.Prepares fs options schema output := ⟨hoptions, hschema, houtput⟩
        have hmapped : (Except.ok output : Except Schema.Fault Output).mapError Failure.schema =
            .ok output := rfl
        simp only [hmapped]
        by_cases hdump : options.dumpJson = true
        · rw [if_pos hdump, Running.on_bind, dumpSchema, on_writeFile]
          cases hwrite : fs.write? (dumpPath job.directory) schema.indented with
          | none =>
            exact .dump hprepares hdump ((FileSystem.write?_eq_none_iff _).1 hwrite)
          | some next =>
            refine finish_ends hquiet hprepares ?_
            rw [dumpText, if_pos hdump]
            exact .cons hwrite (.nil next)
        · rw [if_neg hdump]
          refine finish_ends hquiet hprepares ?_
          rw [dumpText, if_neg hdump]
          exact .nil fs

/-- A formatter that changes nothing and refuses long texts, and no other program. -/
def shortFormatter : Toolbox := fun program _ input fs =>
  if program ≠ "fmt" then none
  else if input.length ≤ 165 then some ⟨.exited 0, input, [], input.length, fs⟩
  else some ⟨.exited 1, [], [], input.length, fs⟩

/-- Two aliases in two namespaces, the second with a longer name. -/
def twoAliases : String :=
  "\x7b\"definitions\":\x7b\"a.T\":\x7b\"kind\":\"type\",\"type\":\"cds.String\"\x7d," ++
    "\"b.Longer\":\x7b\"kind\":\"type\",\"type\":\"cds.String\"\x7d\x7d\x7d"

/-- An output directory and a compiled model. -/
def modelFiles : FileSystem :=
  (FileSystem.empty.addDirectory "out").addFile "model.json" (.text twoAliases)

/-- The job of dumping, formatting and writing the aliases. -/
def formattingJob : Job :=
  Job.of shortFormatter
    (fun _ => .ok { dumpJson := true, format := true, formatterCommand := ["fmt"] })
    .precompiled "model.json" "out"

/-- The text of the second file is too long: the dump and the first file are left. -/
theorem run_ends_unformatted : formattingJob.Quiet (formatOf shortFormatter) ∧
    formattingJob.Ends (formatOf shortFormatter) modelFiles (formattingJob.run.on modelFiles).1
      (formattingJob.run.on modelFiles).2 ∧
    (formattingJob.run.on modelFiles).1.toOption = none ∧
    (formattingJob.run.on modelFiles).2.files.keys = ["model.json", "out.json", "out/a.ts"] := by
  have hblind : shortFormatter.Blind := by
    intro program arguments input fs other
    unfold shortFormatter
    split
    · rfl
    · split <;> rfl
  have hquiet : formattingJob.Quiet (formatOf shortFormatter) :=
    quiet_of hblind _ .precompiled "model.json" "out"
  have hcomputed : ((formattingJob.run.on modelFiles).1.toOption,
      (formattingJob.run.on modelFiles).2.files.keys) =
      (none, ["model.json", "out.json", "out/a.ts"]) := by decide +kernel
  obtain ⟨hfailed, hkeys⟩ := Prod.mk.inj hcomputed
  exact ⟨hquiet, run_ends hquiet modelFiles, hfailed, hkeys⟩

end Job

end SchemaTypings.Run
