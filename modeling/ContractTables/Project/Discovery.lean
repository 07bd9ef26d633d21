import ContractTables.Disk
import ContractTables.Failure
import ContractTables.Pattern
import ContractTables.Settings

/-!
The Solidity files of a project. Directories are entered and files taken by their names
alone, so the files found are those whose names on the way down are all kept; the project
directory itself goes by any name. Files come in the order of the names on the way. A
directory too deep for a path to lead to it ends the walk.
-/
namespace ContractTables

structure WalkOptions where
  /-- Whether the exclusions of the settings count as well. -/
  useDefaults : Bool := true
  excludedDirs : List String := []
  includedDirs : List String := []
  excludedFiles : List String := []
  includedFiles : List String := []

def WalkOptions.validate (options : WalkOptions) : Except Failure Unit :=
  if !options.excludedFiles.isEmpty && !options.includedFiles.isEmpty then .error .filesBothWays
  else if !options.excludedDirs.isEmpty && !options.includedDirs.isEmpty then .error .dirsBothWays
  else .ok ()

structure Filters where
  excludedDirs : List String
  includedDirs : List String
  excludedFiles : List String
  includedFiles : List String
  patterns : List (String → Bool)

namespace Filters

def readPattern (reader : PatternReader) (text : String) : Except Failure (String → Bool) :=
  match reader text with
  | some found => .ok found
  | none => .error (.invalidPattern text)

def of (reader : PatternReader) (options : WalkOptions) (settings : Settings) :
    Except Failure Filters := do
  let defaults (items : List String) := if options.useDefaults then items else []
  let patterns ← (defaults settings.excludedFilePatterns).mapM (readPattern reader)
  .ok { excludedDirs := options.excludedDirs ++ defaults settings.excludedDirs
        includedDirs := options.includedDirs
        excludedFiles := options.excludedFiles ++ defaults settings.excludedFiles
        includedFiles := options.includedFiles
        patterns }

def keepDir (filters : Filters) (name : String) : Bool :=
  if filters.includedDirs.isEmpty then !filters.excludedDirs.contains name
  else filters.includedDirs.contains name

def isSolidity (name : String) : Bool := (Text.dropEndMark? ".sol".toList name.toList).isSome

def keepFile (filters : Filters) (name : String) : Bool :=
  if filters.includedFiles.isEmpty then
    isSolidity name && !filters.excludedFiles.contains name &&
      !filters.patterns.any (· name)
  else filters.includedFiles.contains name

end Filters

def pathBelow (directory : String) (names : List String) : String :=
  names.foldl Path.entry directory

/-- The first directory on a walk that no path leads to, because it would be too long. -/
def unlisted? (filters : Filters) (root : String) (entries : List (String × FileTree)) :
    Option String :=
  ((FileTree.entered filters.keepDir entries).map (pathBelow root)).find? (!Disk.isPath ·)

/-- The files below a project directory, each as the names on the way to it. -/
def discoverBelow (disk : Disk) (root : String) (options : WalkOptions) (settings : Settings)
    (reader : PatternReader := Pattern.read?) : Except Failure (List (List String)) :=
  match disk.node? root with
  | some (.dir entries) => do
      options.validate
      let filters ← Filters.of reader options settings
      match unlisted? filters root entries with
      | some path => .error (.unlisted path)
      | none => .ok (FileTree.selectEntries filters.keepDir filters.keepFile entries)
  | _ => .error (.noDirectory root)

def discover (disk : Disk) (root : String) (options : WalkOptions) (settings : Settings)
    (reader : PatternReader := Pattern.read?) : Except Failure (List String) :=
  (discoverBelow disk root options settings reader).map (·.map (pathBelow root))

end ContractTables
