import ContractTables.Coding.Taxonomy
import ContractTables.Text.Blank

/-!
Settings of a run. Three lists can be replaced by variables of the environment, which
hold entries separated by commas.
-/
namespace ContractTables

structure Settings where
  /-- Contracts of these names are left out of the tables. -/
  ignoredContracts : List String := ["SafeMath"]
  excludedDirs : List String := ["lib", "test"]
  excludedFiles : List String := ["SafeMath.sol", "lib.sol"]
  /-- Interface files of the standards are left out as well. -/
  excludedFilePatterns : List String := ["^I?ERC\\d+\\.sol$", "^I?EIP\\d+\\.sol$"]
  taxonomy : Taxonomy := .governance
  deriving DecidableEq

namespace Settings

def parseList (text : String) : List String :=
  (((text.toList.splitOn ',').map Text.trim).filter (!·.isEmpty)).map String.ofList

def ignoredContractsVariable : String := "SOLCODER_IGNORE_CONTRACTS"

def excludedDirsVariable : String := "SOLCODER_EXCLUDE_DIRS"

def excludedFilesVariable : String := "SOLCODER_EXCLUDE_FILES"

def variableNames : List String :=
  [ignoredContractsVariable, excludedDirsVariable, excludedFilesVariable]

def ofEnvironment (valueOf : String → Option String) : Settings :=
  let list (name : String) (otherwise : List String) :=
    ((valueOf name).map parseList).getD otherwise
  let standard : Settings := {}
  { standard with
    ignoredContracts := list ignoredContractsVariable standard.ignoredContracts
    excludedDirs := list excludedDirsVariable standard.excludedDirs
    excludedFiles := list excludedFilesVariable standard.excludedFiles }

end Settings
end ContractTables
