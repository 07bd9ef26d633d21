import ContractTables.CommandLine

/-!
The program itself. It reads the files and directories that a request names, lets the
request be planned on what it read, and carries out the plan.
-/
namespace ContractTables.Main

/-- The tree below a path. Links in a directory are passed over. -/
partial def readTree (path : String) : IO FileTree := do
  let here := (← IO.currentDir) / path
  if ← here.isDir then
    let mut entries := []
    for entry in ← here.readDir do
      let metadata ← entry.path.symlinkMetadata
      if metadata.type != .symlink then
        entries := insertEntry entry.fileName (← readTree entry.path.toString) entries
    pure (.dir entries)
  else pure (.file (← IO.FS.readBinFile here))

def place (disk : Disk) (path : Path) : List String :=
  path.pieces.foldl
    (fun place piece =>
      if Path.isIdle piece then place
      else if piece = ".." then place.dropLast
      else place ++ [piece])
    (disk.start path)

/-- Adds the directories on the way to a path, and what is there. -/
def readInto (disk : Disk) (text : String) : IO Disk := do
  let path := Path.parse text
  let mut disk := disk
  for above in path.parents.reverse do
    let names := place disk above
    if (disk.root.at? names).isNone && (← ((← IO.currentDir) / above.text).isDir) then
      disk := { disk with root := disk.root.put names (.dir []) }
  try
    let tree ← readTree text
    pure { disk with root := disk.root.put (place disk path) tree }
  catch _ => pure disk

def named (request : CommandLine.Request) : List String :=
  let sources := match request.command with
    | .file tree source _ => [tree, source]
    | .project root _ _ => [root]
  request.taxonomy.toList ++ sources

/-- The disk as far as some paths lead into it. -/
def snapshot (paths : List String) : IO Disk := do
  let current := (Path.parse (← IO.currentDir).toString).pieces.filter (!Path.isIdle ·)
  let mut disk : Disk := ⟨FileTree.put (.dir []) current (.dir []), current⟩
  for path in paths do
    disk ← readInto disk path
  pure disk

def environment : IO CommandLine.Environment := do
  let mut found := []
  for name in Settings.variableNames do
    if let some value ← IO.getEnv name then found := (name, value) :: found
  pure found

/-- Carries out one step, and tells whether it worked. -/
def perform (step : OutputStep) : IO Bool :=
  try
    match step with
    | .makeDirs path => if path.isEmpty then pure () else IO.FS.createDirAll path
    | .write path content => IO.FS.writeFile path content
    pure true
  catch _ => pure false

def performAll : List OutputStep → IO (Option Failure)
  | [] => pure none
  | step :: rest => do
      if ← perform step then performAll rest else pure (some step.failure)

def report (failure : Failure) : IO UInt32 := do
  IO.eprintln ("Error: " ++ failure.message)
  match failure.cause? with
  | some cause => IO.eprintln ("Caused by: " ++ cause.message)
  | none => pure ()
  pure 1

def answer (environment : CommandLine.Environment) (request : CommandLine.Request) :
    IO UInt32 := do
  let disk ← snapshot (named request)
  match CommandLine.plan disk (CommandLine.settingsOf environment) request with
  | .error failure => report failure
  | .ok output =>
      match ← performAll output.steps with
      | some failure => report failure
      | none => IO.print output.printed; pure 0

end ContractTables.Main

open ContractTables

def main (arguments : List String) : IO UInt32 := do
  let around := CommandLine.variableFiles (← Main.snapshot []).current.reverse
  match CommandLine.environmentAt? (← Main.snapshot around) (← Main.environment) with
  | none =>
      IO.eprintln "A variable in .env holds a null character"
      pure (UInt32.ofNat CommandLine.brokenEnvironment)
  | some environment =>
      match CommandLine.Call.ofArguments arguments with
      | .request request => Main.answer environment request
      | .version text => IO.print text; pure 0
      | .help => IO.print CommandLine.usage; pure 0
      | .misuse => IO.eprint CommandLine.usage; pure 1
