import ContractTables.CommandLine
import ContractTables.Proofs.Disk.Writing

/-!
What becomes of the files that a run reads. Writing the tables of a source file leaves the
syntax tree, the source and the taxonomy alone, unless the tables go to one of these very
files. The source is never written over with tables as CSV, and with JSON only if its own
name ends in `.json`.
-/
namespace ContractTables

namespace CommandLine

def outputStem (source : String) : String := (Path.parse source).stem?.getD "contract"

def outputNames (format : Format) (stem : String) : List String :=
  match format with
  | .csv => ["contract_objects_", "contract_parameters_"].map (· ++ stem ++ ".csv")
  | .json => [stem ++ ".json"]

def outputPaths (format : Format) (directory source : String) : List String :=
  (outputNames format (outputStem source)).map (Path.entry directory)

def inputs (tree source : String) (taxonomy : Option String) : List String :=
  taxonomy.toList ++ [tree, source]

section Names

variable {format : Format} {source stem name : String}

theorem noSlash_outputStem (source : String) : '/' ∉ (outputStem source).toList := by
  unfold outputStem
  cases named : (Path.parse source).name? with
  | none =>
      rw [Path.stem?, named]
      decide
  | some name =>
      obtain ⟨stem, found, front⟩ := Path.exists_stem? named
      rw [found]
      exact fun inside => Path.noSlash_of_name? named (front.subset inside)

/-- The stem is part of every output name, between texts without slashes. -/
theorem exists_of_mem_outputNames (member : name ∈ outputNames format stem) :
    ∃ lead ending : String, name = lead ++ stem ++ ending ∧ '/' ∉ lead.toList ∧
      '/' ∉ ending.toList ∧ 4 ≤ ending.length := by
  cases format with
  | csv =>
      obtain ⟨lead, among, rfl⟩ := List.mem_map.mp member
      refine ⟨lead, ".csv", rfl, ?_, by decide, by decide⟩
      clear member
      revert lead
      decide
  | json =>
      cases List.mem_singleton.mp member
      exact ⟨"", ".json", by rw [String.empty_append], by decide, by decide, by decide⟩

/-- An output path ends in the name of the output. -/
theorem name?_outputPath {path directory : String}
    (member : path ∈ outputPaths format directory source) :
    ∃ name ∈ outputNames format (outputStem source), (Path.parse path).name? = some name := by
  obtain ⟨name, among, rfl⟩ := List.mem_map.mp member
  obtain ⟨lead, ending, same, before, after, long⟩ := exists_of_mem_outputNames among
  refine ⟨name, among, Path.name?_parse_entry directory (Path.named_of_length ?_) ?_⟩
  · rw [same, String.length_append]
    omega
  · simp [same, before, after, noSlash_outputStem]

/-- A source file goes by the name of one of its own outputs only as JSON. -/
theorem eq_json_of_mem_outputNames (named : (Path.parse source).name? = some name)
    (member : name ∈ outputNames format (outputStem source)) :
    format = .json ∧ name = outputStem source ++ ".json" := by
  cases format with
  | json => exact ⟨rfl, List.mem_singleton.mp member⟩
  | csv =>
      -- What stands before the ending would be the stem, and is longer than the stem.
      obtain ⟨lead, filled, same⟩ : ∃ lead : String, lead ≠ "" ∧
          name = (lead ++ outputStem source) ++ "." ++ "csv" := by
        obtain ⟨lead, among, rfl⟩ := List.mem_map.mp member
        refine ⟨lead, ?_, ?_⟩
        · rintro rfl
          revert among
          decide
        · have ending : ".csv" = "." ++ "csv" := by decide
          rw [ending, ← String.append_assoc]
      have stem : (Path.parse source).stem? = some (lead ++ outputStem source) := by
        apply Path.stem?_of_extension _ (by decide) (same ▸ named)
        exact fun empty => filled (String.append_eq_empty_iff.mp empty).1
      have longer : outputStem source = lead ++ outputStem source := by
        conv => lhs; rw [outputStem, stem, Option.getD_some]
      have lengths := congrArg String.length longer
      rw [String.length_append] at lengths
      have empty : lead.length = 0 := by omega
      exact absurd (String.length_eq_zero_iff.mp empty) filled

end Names

/-! Reading comes before writing. -/

section Reading

variable {disk : Disk} {settings : Settings} {tree source directory : String} {format : Format}
  {taxonomy : Option String} {output : Output}

theorem exists_bytes_of_read? {path text : String} (read : disk.read? path = some text) :
    ∃ content, disk.bytes? path = some content := by
  obtain ⟨content, holds, _⟩ := Option.bind_eq_some_iff.mp read
  exact ⟨content, holds⟩

theorem exists_bytes_of_withTaxonomy {found : Settings}
    (loaded : withTaxonomy disk taxonomy settings = .ok found) :
    ∀ path ∈ taxonomy.toList, ∃ content, disk.bytes? path = some content := by
  intro path member
  cases Option.mem_toList.mp member
  rw [withTaxonomy, loadTaxonomy] at loaded
  cases read : disk.read? path with
  | none => rw [read] at loaded; cases loaded
  | some text => exact exists_bytes_of_read? read

theorem exists_bytes_of_parseFile {tables : Tables}
    (parsed : parseFile disk settings tree source = .ok tables) :
    ∀ path ∈ [tree, source], ∃ content, disk.bytes? path = some content := by
  rw [parseFile, loadTree] at parsed
  cases readTree : disk.read? tree with
  | none => rw [readTree] at parsed; cases parsed
  | some text =>
      cases readSource : disk.read? source with
      | none =>
          rw [readTree, readSource] at parsed
          cases loaded : Json.load? text.toList with
          | none => simp only [loaded] at parsed; cases parsed
          | some root => simp only [loaded] at parsed; cases parsed
      | some lines =>
          intro path member
          rcases List.mem_cons.mp member with rfl | last
          · exact exists_bytes_of_read? readTree
          · cases List.mem_singleton.mp last
            exact exists_bytes_of_read? readSource

def fileOutput (directory source : String) (tables : Tables) : Format → Output
  | .csv => .fileCsv directory (outputStem source) tables
  | .json => .fileJson directory (outputStem source) tables

/-- The output of a request for a source file is settled from its tables alone. -/
theorem plan_file {found : Settings} (loaded : withTaxonomy disk taxonomy settings = .ok found) :
    plan disk settings ⟨.file tree source format, directory, taxonomy⟩ =
      (parseFile disk found tree source).map fun tables =>
        fileOutput directory source tables format := by
  rw [plan, loaded]
  cases parsed : parseFile disk found tree source with
  | error failure => simp only [bind, Except.bind, parsed, Except.map]
  | ok tables =>
      cases format <;> simp only [bind, Except.bind, parsed, Except.map, fileOutput, outputStem]

theorem exists_of_plan_eq_ok
    (settled : plan disk settings ⟨.file tree source format, directory, taxonomy⟩ = .ok output) :
    ∃ found tables, withTaxonomy disk taxonomy settings = .ok found ∧
      parseFile disk found tree source = .ok tables ∧
      output = fileOutput directory source tables format := by
  cases loaded : withTaxonomy disk taxonomy settings with
  | error failure =>
      rw [plan, loaded] at settled
      cases settled
  | ok found =>
      rw [plan_file loaded] at settled
      cases parsed : parseFile disk found tree source with
      | error failure =>
          rw [parsed] at settled
          cases settled
      | ok tables =>
          rw [parsed] at settled
          exact ⟨found, tables, rfl, parsed, (Except.ok.inj settled).symm⟩

theorem exists_bytes_of_plan
    (settled : plan disk settings ⟨.file tree source format, directory, taxonomy⟩ = .ok output) :
    ∀ input ∈ inputs tree source taxonomy, ∃ content, disk.bytes? input = some content := by
  obtain ⟨found, tables, loaded, parsed, _⟩ := exists_of_plan_eq_ok settled
  intro input member
  rcases List.mem_append.mp member with named | named
  · exact exists_bytes_of_withTaxonomy loaded input named
  · exact exists_bytes_of_parseFile parsed input named

/-- The tables of a source file are written to its output paths, one after another. -/
theorem exists_steps_fileOutput (directory source : String) (tables : Tables) (format : Format) :
    ∃ files : List (String × String), files.map Prod.fst = outputPaths format directory source ∧
      (fileOutput directory source tables format).steps =
        .makeDirs directory :: files.map fun (path, content) => .write path content := by
  let stem := outputStem source
  cases format with
  | csv =>
      refine ⟨[(objectsPath directory stem, objectsCsv stem [⟨stem, tables⟩]),
        (parametersPath directory stem, parametersCsv stem [⟨stem, tables⟩])], rfl, rfl⟩
  | json => exact ⟨[(Path.entry directory (stem ++ ".json"), tables.toJsonText)], rfl, rfl⟩

theorem mem_outputPaths_of_plan
    (settled : plan disk settings ⟨.file tree source format, directory, taxonomy⟩ = .ok output)
    {path content : String} (among : .write path content ∈ output.steps) :
    path ∈ outputPaths format directory source := by
  obtain ⟨found, tables, _, _, rfl⟩ := exists_of_plan_eq_ok settled
  obtain ⟨files, paths, steps⟩ := exists_steps_fileOutput directory source tables format
  rw [steps, List.mem_cons, or_iff_right OutputStep.noConfusion] at among
  obtain ⟨file, member, same⟩ := List.mem_map.mp among
  cases same
  exact paths ▸ List.mem_map_of_mem member

end Reading

/-! Runs for one source file. -/

/-- One of the outputs of a run has been written over a file that it names. -/
def Overwritten (disk : Disk) (environment : Environment) (request : Request) (after : Disk)
    (input path : String) : Prop :=
  ∃ extended output, environmentAt? disk environment = some extended ∧
    plan disk (settingsOf extended) request = .ok output ∧
    OutputStep.Replaced output.steps disk after input path

section Runs

variable (disk : Disk) {settings : Settings} {request : Request} {output : Output}

theorem disk_answer_of_plan (settled : plan disk settings request = .ok output) :
    (answer disk settings request).disk = (OutputStep.carryOutAll disk output.steps).1 := by
  rw [answer, settled]
  dsimp only
  obtain ⟨after, stopped⟩ := OutputStep.carryOutAll disk output.steps
  cases stopped <;> rfl

/-- A run that settles no output leaves the disk alone. -/
theorem disk_run_cases (environment : Environment) {arguments : List String}
    (called : Call.ofArguments arguments = .request request) :
    (run disk environment arguments).disk = disk ∨
      ∃ extended output, environmentAt? disk environment = some extended ∧
        plan disk (settingsOf extended) request = .ok output ∧
        (run disk environment arguments).disk =
          (OutputStep.carryOutAll disk output.steps).1 := by
  rw [run]
  cases read : environmentAt? disk environment with
  | none => exact .inl rfl
  | some extended =>
      simp only [obey, called]
      cases settled : plan disk (settingsOf extended) request with
      | error failure =>
          rw [answer, settled]
          exact .inl rfl
      | ok output => exact .inr ⟨extended, output, rfl, settled, disk_answer_of_plan disk settled⟩

end Runs

def bankDisk : Disk :=
  let tree : FileTree := .file "\x7b\"children\":[]\x7d".toUTF8
  ⟨.dir [("Bank.json", tree), ("Bank.sol", .file .empty), ("Bank.sol.json", tree)], []⟩

/-- A run for a source file leaves its inputs alone, except one that is an output of the run
as well and then holds this output. The source is such a file only if its own name is that of
the tables as JSON. -/
theorem run_file_spares_inputs (disk : Disk) (environment : Environment)
    (arguments : List String) (tree source directory : String) (format : Format)
    (taxonomy : Option String)
    (called : Call.ofArguments arguments =
      .request ⟨.file tree source format, directory, taxonomy⟩)
    (current : disk.isDirAt disk.current) :
    (∀ input ∈ inputs tree source taxonomy,
      (run disk environment arguments).disk.bytes? input = disk.bytes? input ∨
        ∃ path ∈ outputPaths format directory source,
          Overwritten disk environment ⟨.file tree source format, directory, taxonomy⟩
            (run disk environment arguments).disk input path) ∧
    ((run disk environment arguments).disk.bytes? source = disk.bytes? source ∨
      format = .json ∧ (Path.parse source).name? = some (outputStem source ++ ".json")) := by
  rcases disk_run_cases disk environment called with
    untouched | ⟨extended, output, read, settled, after⟩
  · rw [untouched]
    exact ⟨fun _ _ => .inl rfl, .inl rfl⟩
  · rw [after]
    have readable := exists_bytes_of_plan settled
    have outputs {input path : String} (replaced : OutputStep.Replaced output.steps disk
        (OutputStep.carryOutAll disk output.steps).1 input path) :
        path ∈ outputPaths format directory source := by
      obtain ⟨_, _, among, _⟩ := replaced
      exact mem_outputPaths_of_plan settled among
    constructor
    · intro input named
      obtain ⟨content, holds⟩ := readable input named
      rcases OutputStep.bytes?_carryOutAll output.steps holds with same | ⟨path, replaced⟩
      · exact .inl (same.trans holds.symm)
      · exact .inr ⟨path, outputs replaced, extended, output, read, settled, replaced⟩
    · obtain ⟨content, holds⟩ := readable source (by simp [inputs])
      rcases OutputStep.bytes?_carryOutAll output.steps holds with same | ⟨path, replaced⟩
      · exact .inl (same.trans holds.symm)
      · obtain ⟨name, named, alsoNamed⟩ := replaced.same_name current holds
        obtain ⟨other, member, otherNamed⟩ := name?_outputPath (outputs replaced)
        cases alsoNamed.symm.trans otherNamed
        obtain ⟨json, same⟩ := eq_json_of_mem_outputNames named member
        exact .inr ⟨json, same ▸ named⟩

theorem run_file_spares_bank :
    Call.ofArguments ["file", "Bank.sol.json", "Bank.sol"] =
        .request ⟨.file "Bank.sol.json" "Bank.sol" .csv, ".", none⟩ ∧
      bankDisk.isDirAt bankDisk.current ∧
      (run bankDisk [] ["file", "Bank.sol.json", "Bank.sol"]).disk.bytes? "Bank.sol.json" =
        bankDisk.bytes? "Bank.sol.json" ∧
      (run bankDisk [] ["file", "Bank.sol.json", "Bank.sol"]).disk.bytes? "Bank.sol" =
        bankDisk.bytes? "Bank.sol" := by
  have spares := run_file_spares_inputs bankDisk [] ["file", "Bank.sol.json", "Bank.sol"]
    "Bank.sol.json" "Bank.sol" "." .csv none rfl rfl
  refine ⟨rfl, rfl, ?_, ?_⟩
  · apply (spares.1 "Bank.sol.json" (by decide)).resolve_right
    rintro ⟨path, member, _, _, _, _, _, place, _, named, leads, _⟩
    have elsewhere : ∀ path ∈ outputPaths .csv "." "Bank.sol",
        (run bankDisk [] ["file", "Bank.sol.json", "Bank.sol"]).disk.place? path ≠
          bankDisk.place? "Bank.sol.json" := by
      decide +kernel
    exact elsewhere path member (leads.trans named.symm)
  · apply spares.2.resolve_right
    rintro ⟨csv, _⟩
    cases csv

/-- Tables as JSON take the place of a syntax tree that has their name. -/
theorem tree_written_over :
    Call.ofArguments ["file", "Bank.json", "Bank.sol", "--format", "json"] =
        .request ⟨.file "Bank.json" "Bank.sol" .json, ".", none⟩ ∧
      (run bankDisk [] ["file", "Bank.json", "Bank.sol", "--format", "json"]).code = 0 ∧
      (run bankDisk [] ["file", "Bank.json", "Bank.sol", "--format", "json"]).disk.bytes?
        "Bank.json" ≠ bankDisk.bytes? "Bank.json" :=
  ⟨rfl, by decide +kernel, by decide +kernel⟩

end CommandLine
end ContractTables
