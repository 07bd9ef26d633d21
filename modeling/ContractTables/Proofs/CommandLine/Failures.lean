import ContractTables.Proofs.CommandLine.Inputs
import ContractTables.Proofs.Project.Batch

/-!
What failed runs leave behind. A run that is given something it cannot use ends before it
makes or writes anything, with a failure that names what it cannot use. So does a run for a
project none of whose files can be parsed. Only a directory or file that cannot be made may
end a run when some of its output is there already.
-/
namespace ContractTables

inductive Failure.OfOutput : Failure → Prop where
  | unmadeDirectory (path : String) : OfOutput (.unmadeDirectory path)
  | unwritten (path : String) : OfOutput (.unwritten path)

theorem OutputStep.ofOutput_failure (step : OutputStep) : step.failure.OfOutput := by
  cases step with
  | makeDirs path => exact .unmadeDirectory path
  | write path content => exact .unwritten path

theorem OutputStep.ofOutput_of_carryOutAll {disk after : Disk} {steps : List OutputStep}
    {failure : Failure} (stopped : carryOutAll disk steps = (after, some failure)) :
    failure.OfOutput := by
  induction steps generalizing disk with
  | nil => cases stopped
  | cons step rest ih =>
      rw [carryOutAll] at stopped
      cases carried : step.carryOut? disk with
      | some next =>
          rw [carried] at stopped
          exact ih stopped
      | none =>
          rw [carried] at stopped
          cases stopped
          exact step.ofOutput_failure

namespace CommandLine

/-- Why a request cannot be met with what is on the disk, and the failure that says so. -/
inductive InputFailure (disk : Disk) (settings : Settings) (request : Request) :
    Failure → Prop where
  | unreadableTaxonomy {path : String} (named : request.taxonomy = some path)
      (unread : disk.read? path = none) :
      InputFailure disk settings request (.unreadableTaxonomy path)
  | invalidTaxonomy {path text : String} (named : request.taxonomy = some path)
      (read : disk.read? path = some text) (invalid : Taxonomy.load? text.toList = none) :
      InputFailure disk settings request (.invalidTaxonomy path)
  | unreadableTree {tree source : String} {format : Format}
      (asked : request.command = .file tree source format) (unread : disk.read? tree = none) :
      InputFailure disk settings request (.unreadableTree tree)
  | invalidTree {tree source text : String} {format : Format}
      (asked : request.command = .file tree source format) (read : disk.read? tree = some text)
      (invalid : Json.load? text.toList = none) :
      InputFailure disk settings request (.invalidTree tree)
  | unreadableSource {tree source : String} {format : Format}
      (asked : request.command = .file tree source format) (unread : disk.read? source = none) :
      InputFailure disk settings request (.unreadableSource source)
  | rejected {tree source text : String} {format : Format} {root : Node} {fault : Fault}
      (asked : request.command = .file tree source format) (read : disk.read? tree = some text)
      (loaded : Json.load? text.toList = some root)
      (extracted : Tables.extract root settings.ignoredContracts = .error fault) :
      InputFailure disk settings request (.rejected source fault)
  | noDirectory {root : String} {label : Option String} {options : WalkOptions}
      (asked : request.command = .project root label options) (absent : ¬ disk.isDir root) :
      InputFailure disk settings request (.noDirectory root)
  | filesBothWays {root : String} {label : Option String} {options : WalkOptions}
      (asked : request.command = .project root label options)
      (both : options.excludedFiles ≠ [] ∧ options.includedFiles ≠ []) :
      InputFailure disk settings request .filesBothWays
  | dirsBothWays {root : String} {label : Option String} {options : WalkOptions}
      (asked : request.command = .project root label options)
      (both : options.excludedDirs ≠ [] ∧ options.includedDirs ≠ []) :
      InputFailure disk settings request .dirsBothWays
  | invalidPattern {root pattern : String} {label : Option String} {options : WalkOptions}
      (asked : request.command = .project root label options) (defaults : options.useDefaults)
      (among : pattern ∈ settings.excludedFilePatterns)
      (invalid : Pattern.read? pattern = none) :
      InputFailure disk settings request (.invalidPattern pattern)
  | unlisted {root path : String} {label : Option String} {options : WalkOptions}
      (asked : request.command = .project root label options) (long : ¬ Disk.isPath path) :
      InputFailure disk settings request (.unlisted path)

section Reading

variable {disk : Disk} {base settings : Settings} {request : Request} {failure : Failure}

/-- Which taxonomy the settings have does not matter for what a request lacks. -/
theorem InputFailure.of_taxonomy {taxonomy : Taxonomy}
    (input : InputFailure disk { base with taxonomy } request failure) :
    InputFailure disk base request failure := by
  cases input with
  | unreadableTaxonomy named unread => exact .unreadableTaxonomy named unread
  | invalidTaxonomy named read invalid => exact .invalidTaxonomy named read invalid
  | unreadableTree asked unread => exact .unreadableTree asked unread
  | invalidTree asked read invalid => exact .invalidTree asked read invalid
  | unreadableSource asked unread => exact .unreadableSource asked unread
  | rejected asked read loaded extracted => exact .rejected asked read loaded extracted
  | noDirectory asked absent => exact .noDirectory asked absent
  | filesBothWays asked both => exact .filesBothWays asked both
  | dirsBothWays asked both => exact .dirsBothWays asked both
  | invalidPattern asked defaults among invalid =>
      exact .invalidPattern asked defaults among invalid
  | unlisted asked long => exact .unlisted asked long

theorem inputFailure_of_withTaxonomy
    (failed : withTaxonomy disk request.taxonomy base = .error failure) :
    InputFailure disk base request failure := by
  cases named : request.taxonomy with
  | none => rw [named] at failed; cases failed
  | some path =>
      rw [named, withTaxonomy, loadTaxonomy] at failed
      cases read : disk.read? path with
      | none =>
          rw [read] at failed
          cases failed
          exact .unreadableTaxonomy named read
      | some text =>
          rw [read] at failed
          cases loaded : Taxonomy.load? text.toList with
          | none =>
              simp only [loaded] at failed
              cases failed
              exact .invalidTaxonomy named read loaded
          | some taxonomy => simp only [loaded] at failed; cases failed

/-- A taxonomy takes the place of the one in the settings and of nothing else. -/
theorem exists_taxonomy_of_withTaxonomy {path : Option String}
    (loaded : withTaxonomy disk path base = .ok settings) :
    ∃ taxonomy, settings = { base with taxonomy } := by
  cases path with
  | none =>
      cases loaded
      exact ⟨base.taxonomy, rfl⟩
  | some path =>
      rw [withTaxonomy] at loaded
      cases read : loadTaxonomy disk path with
      | error failure => rw [read] at loaded; cases loaded
      | ok taxonomy =>
          rw [read] at loaded
          exact ⟨taxonomy, (Except.ok.inj loaded).symm⟩

theorem inputFailure_of_parseFile {tree source : String} {format : Format}
    (asked : request.command = .file tree source format)
    (failed : parseFile disk settings tree source = .error failure) :
    InputFailure disk settings request failure := by
  rw [parseFile, loadTree] at failed
  cases read : disk.read? tree with
  | none =>
      rw [read] at failed
      cases failed
      exact .unreadableTree asked read
  | some text =>
      rw [read] at failed
      cases loaded : Json.load? text.toList with
      | none =>
          simp only [loaded] at failed
          cases failed
          exact .invalidTree asked read loaded
      | some root =>
          simp only [loaded, bind, Except.bind] at failed
          cases readSource : disk.read? source with
          | none =>
              rw [readSource] at failed
              cases failed
              exact .unreadableSource asked readSource
          | some lines =>
              simp only [readSource, parseSource_eq] at failed
              cases extracted : Tables.extract root settings.ignoredContracts with
              | ok tables => rw [extracted] at failed; cases failed
              | error fault =>
                  rw [extracted] at failed
                  cases failed
                  exact .rejected asked read loaded extracted

/-- Reading some patterns fails at one that cannot be read. -/
theorem exists_invalid_of_mapM {reader : PatternReader} {texts : List String}
    (failed : texts.mapM (Filters.readPattern reader) = .error failure) :
    ∃ text ∈ texts, reader text = none ∧ failure = .invalidPattern text := by
  induction texts with
  | nil => cases failed
  | cons text texts ih =>
      rw [List.mapM_cons, Filters.readPattern] at failed
      cases read : reader text with
      | none =>
          rw [read] at failed
          cases failed
          exact ⟨text, List.mem_cons_self, read, rfl⟩
      | some found =>
          simp only [read, bind, Except.bind] at failed
          cases others : texts.mapM (Filters.readPattern reader) with
          | ok patterns => rw [others] at failed; cases failed
          | error other =>
              rw [others] at failed
              cases failed
              obtain ⟨text, member, unread, same⟩ := ih others
              exact ⟨text, List.mem_cons_of_mem _ member, unread, same⟩

theorem inputFailure_of_validate {root : String} {label : Option String} {options : WalkOptions}
    (asked : request.command = .project root label options)
    (failed : options.validate = .error failure) :
    InputFailure disk settings request failure := by
  rw [WalkOptions.validate] at failed
  split at failed
  · next both =>
      cases failed
      exact .filesBothWays asked (by simpa using both)
  · split at failed
    · next both =>
        cases failed
        exact .dirsBothWays asked (by simpa using both)
    · cases failed

theorem inputFailure_of_filters {root : String} {label : Option String} {options : WalkOptions}
    (asked : request.command = .project root label options)
    (failed : Filters.of Pattern.read? options settings = .error failure) :
    InputFailure disk settings request failure := by
  rw [Filters.of] at failed
  cases defaults : options.useDefaults with
  | false =>
      rw [defaults] at failed
      cases failed
  | true =>
      simp only [defaults, ↓reduceIte, bind, Except.bind] at failed
      cases read : settings.excludedFilePatterns.mapM (Filters.readPattern Pattern.read?) with
      | ok patterns => rw [read] at failed; cases failed
      | error other =>
          rw [read] at failed
          cases failed
          obtain ⟨text, member, invalid, rfl⟩ := exists_invalid_of_mapM read
          exact .invalidPattern asked defaults member invalid

theorem inputFailure_of_discover {root : String} {label : Option String} {options : WalkOptions}
    (asked : request.command = .project root label options)
    (failed : discover disk root options settings = .error failure) :
    InputFailure disk settings request failure := by
  rw [discover, discoverBelow] at failed
  split at failed
  · next entries atRoot =>
      cases valid : options.validate with
      | error other =>
          rw [valid] at failed
          cases failed
          exact inputFailure_of_validate asked valid
      | ok _ =>
          cases made : Filters.of Pattern.read? options settings with
          | error other =>
              rw [valid, made] at failed
              cases failed
              exact inputFailure_of_filters asked made
          | ok filters =>
              rw [valid, made] at failed
              simp only [bind, Except.bind] at failed
              cases first : unlisted? filters root entries with
              | none => rw [first] at failed; cases failed
              | some path =>
                  rw [first] at failed
                  cases failed
                  exact .unlisted asked (by simpa using List.find?_some first)
  · next other =>
      cases failed
      refine .noDirectory asked fun isDir => ?_
      rw [Disk.isDir] at isDir
      cases there : disk.node? root with
      | none => rw [there] at isDir; cases isDir
      | some tree =>
          rw [there] at isDir
          cases tree with
          | dir entries => exact other entries there
          | file content => cases isDir

/-- A request that is not met fails for what it is given, whatever its output would be. -/
theorem inputFailure_of_plan (failed : plan disk base request = .error failure) :
    InputFailure disk base request failure := by
  rw [plan] at failed
  cases loaded : withTaxonomy disk request.taxonomy base with
  | error other =>
      rw [loaded] at failed
      cases failed
      exact inputFailure_of_withTaxonomy loaded
  | ok settings =>
      -- The lists of the settings are as they were before the taxonomy was read.
      obtain ⟨taxonomy, rfl⟩ := exists_taxonomy_of_withTaxonomy loaded
      simp only [loaded, bind, Except.bind] at failed
      cases asked : request.command with
      | file tree source format =>
          simp only [asked] at failed
          cases parsed : parseFile disk { base with taxonomy } tree source with
          | ok tables => cases format <;> simp only [parsed] at failed <;> cases failed
          | error other =>
              rw [parsed] at failed
              cases failed
              exact (inputFailure_of_parseFile asked parsed).of_taxonomy
      | project root label options =>
          simp only [asked, parseProject_eq] at failed
          cases found : discover disk root options { base with taxonomy } with
          | ok paths => rw [found] at failed; cases failed
          | error other =>
              rw [found] at failed
              cases failed
              exact (inputFailure_of_discover asked found).of_taxonomy

end Reading

/-! Runs. -/

def Reports (disk : Disk) (environment : Environment) (arguments : List String)
    (report : ProjectReport) : Prop :=
  ∃ extended root label options directory taxonomy settings,
    environmentAt? disk environment = some extended ∧
    Call.ofArguments arguments = .request ⟨.project root label options, directory, taxonomy⟩ ∧
    withTaxonomy disk taxonomy (settingsOf extended) = .ok settings ∧
    parseProject disk root ((label <|> (Path.parse root).name?).getD "project") options settings =
      .ok report

section Runs

variable {disk : Disk} {environment : Environment} {arguments : List String}

/-- A run that is no request, or one that is not met, leaves the disk as it is. A run that has
settled its output can only fail to make it. -/
theorem run_cases (disk : Disk) (environment : Environment) (arguments : List String) :
    (run disk environment arguments).disk = disk ∧
        (∀ failure, (run disk environment arguments).failure = some failure →
          ∃ extended request, environmentAt? disk environment = some extended ∧
            Call.ofArguments arguments = .request request ∧
            InputFailure disk (settingsOf extended) request failure) ∨
      ((run disk environment arguments).failure = none →
          (run disk environment arguments).code = 0) ∧
        ∀ failure, (run disk environment arguments).failure = some failure →
          failure.OfOutput := by
  rw [run]
  cases read : environmentAt? disk environment with
  | none => exact .inl ⟨rfl, by simp⟩
  | some extended =>
      dsimp only
      rw [obey]
      cases called : Call.ofArguments arguments with
      | version text => exact .inl ⟨rfl, by simp⟩
      | help => exact .inl ⟨rfl, by simp⟩
      | misuse => exact .inl ⟨rfl, by simp⟩
      | request request =>
          dsimp only
          rw [answer]
          cases settled : plan disk (settingsOf extended) request with
          | error failure =>
              refine .inl ⟨rfl, ?_⟩
              rintro _ ⟨⟩
              exact ⟨extended, request, rfl, rfl, inputFailure_of_plan settled⟩
          | ok output =>
              right
              dsimp only
              cases carried : OutputStep.carryOutAll disk output.steps with
              | mk after stopped =>
                  cases stopped with
                  | none => exact ⟨fun _ => rfl, by simp⟩
                  | some failure =>
                      refine ⟨by simp, ?_⟩
                      rintro _ ⟨⟩
                      exact OutputStep.ofOutput_of_carryOutAll carried

/-- A project none of whose files can be parsed has no output but what is printed. -/
theorem run_of_reports {report : ProjectReport}
    (reports : Reports disk environment arguments report) (none : report.files = []) :
    run disk environment arguments =
      ⟨0, "Summary: parsed 0 files\n" ++ Output.failedLines report.failed, .none, disk⟩ := by
  obtain ⟨extended, root, label, options, directory, taxonomy, settings, read, called, loaded,
    parsed⟩ := reports
  have settled : plan disk (settingsOf extended)
      ⟨.project root label options, directory, taxonomy⟩ = .ok (.project directory report) := by
    simp only [plan, loaded, parsed, bind, Except.bind]
  rw [run, read]
  simp only [obey, called, answer, settled]
  simp only [Output.project, none, List.isEmpty_nil, ↓reduceIte, OutputStep.carryOutAll]
  rfl

end Runs

/-- A run that ends with an error leaves the disk as it is, unless the error is that its output
cannot be made. Any other failure names what the run was given and could not use. A run for a
project that parses no file ends well and leaves the disk as it is. -/
theorem input_failures_write_nothing (disk : Disk) (environment : Environment)
    (arguments : List String) :
    ((run disk environment arguments).code ≠ 0 →
      (∀ failure, (run disk environment arguments).failure = some failure →
        ¬ failure.OfOutput) →
      (run disk environment arguments).disk = disk) ∧
    (∀ failure, (run disk environment arguments).failure = some failure → ¬ failure.OfOutput →
      ∃ extended request, environmentAt? disk environment = some extended ∧
        Call.ofArguments arguments = .request request ∧
        InputFailure disk (settingsOf extended) request failure) ∧
    ∀ report, Reports disk environment arguments report → report.files = [] →
      run disk environment arguments =
        ⟨0, "Summary: parsed 0 files\n" ++ Output.failedLines report.failed, none, disk⟩ := by
  refine ⟨?_, ?_, fun report reports none => run_of_reports reports none⟩
  · intro failed noOutput
    rcases run_cases disk environment arguments with ⟨untouched, _⟩ | ⟨succeeds, output⟩
    · exact untouched
    · cases stopped : (run disk environment arguments).failure with
      | none => exact absurd (succeeds stopped) failed
      | some failure => exact absurd (output failure stopped) (noOutput failure stopped)
  · intro failure stopped noOutput
    rcases run_cases disk environment arguments with ⟨_, input⟩ | ⟨_, output⟩
    · exact input failure stopped
    · exact absurd (output failure stopped) noOutput

def voteDisk : Disk := flatDisk [("Vote.sol", "")]

theorem reports_voteDisk :
    Reports voteDisk [] ["repo", "dao", "--no-defaults"]
      (.ofPaths voteDisk {} "dao" "dao" ["dao/Vote.sol"]) := by
  refine ⟨[], "dao", none, { useDefaults := false }, ".", none, {}, rfl, rfl, rfl, ?_⟩
  have discovered : discover voteDisk "dao" { useDefaults := false } {} = .ok ["dao/Vote.sol"] :=
    discover_flatDisk [("Vote.sol", "")]
  have named : ((none <|> (Path.parse "dao").name?).getD "project" : String) = "dao" := rfl
  rw [parseProject_eq, discovered, named]
  rfl

theorem input_failures_write_nothing_vote :
    (run voteDisk [] ["file", "dao/Vote.json", "dao/Vote.sol"]).failure =
        some (.unreadableTree "dao/Vote.json") ∧
      (run voteDisk [] ["file", "dao/Vote.json", "dao/Vote.sol"]).code ≠ 0 ∧
      (run voteDisk [] ["file", "dao/Vote.json", "dao/Vote.sol"]).disk = voteDisk ∧
      ∃ report, Reports voteDisk [] ["repo", "dao", "--no-defaults"] report ∧
        report.files = [] ∧ report.failed = ["dao/Vote.sol"] ∧
        (run voteDisk [] ["repo", "dao", "--no-defaults"]).disk = voteDisk := by
  have stopped : (run voteDisk [] ["file", "dao/Vote.json", "dao/Vote.sol"]).failure =
      some (.unreadableTree "dao/Vote.json") := rfl
  have failed : (run voteDisk [] ["file", "dao/Vote.json", "dao/Vote.sol"]).code ≠ 0 := by
    decide +kernel
  refine ⟨stopped, failed, ?_, _, reports_voteDisk, ?_, ?_, ?_⟩
  · apply (input_failures_write_nothing voteDisk []
      ["file", "dao/Vote.json", "dao/Vote.sol"]).1 failed
    rw [stopped]
    rintro _ ⟨⟩ output
    cases output
  · rfl
  · rfl
  · rw [(input_failures_write_nothing voteDisk [] ["repo", "dao", "--no-defaults"]).2.2 _
      reports_voteDisk rfl]

end CommandLine
end ContractTables
