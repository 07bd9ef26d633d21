import ContractTables.Text.Blank
import ContractTables.Text.Search

/-!
Paths as texts. A path is its lead (the root, or a dot at the front) and the pieces
between its slashes. Empty pieces and single dots are idle: they name no step, and are
kept only while they stand between two pieces that do.
-/
namespace ContractTables

inductive Lead where
  | root
  | current
  | none
  deriving DecidableEq

structure Path where
  lead : Lead
  pieces : List String
  deriving DecidableEq

namespace Path

def parse (text : String) : Path :=
  match (text.toList.splitOn '/').map String.ofList with
  | "" :: piece :: rest => ⟨.root, piece :: rest⟩
  | "." :: rest => ⟨.current, rest⟩
  | pieces => ⟨.none, pieces⟩

def text : Path → String
  | ⟨.root, pieces⟩ => "/" ++ "/".intercalate pieces
  | ⟨.current, pieces⟩ => "/".intercalate ("." :: pieces)
  | ⟨.none, pieces⟩ => "/".intercalate pieces

def isIdle (piece : String) : Bool := piece = "" || piece = "."

def dropIdleEnd (pieces : List String) : List String := (pieces.reverse.dropWhile isIdle).reverse

/-- The last step of a path, unless it leads back to the parent or there is none. -/
def name? (path : Path) : Option String :=
  (dropIdleEnd path.pieces).getLast?.filter (· ≠ "..")

/-- The pieces before each step, the longest first; all of them in reverse. -/
def stepsBack : List String → List (List String)
  | [] => []
  | piece :: rest =>
      if isIdle piece then stepsBack rest else rest.dropWhile isIdle :: stepsBack rest

/-- The paths above a path, the nearest first. -/
def parents (path : Path) : List Path :=
  let above := (stepsBack path.pieces.reverse).map fun pieces => ⟨path.lead, pieces.reverse⟩
  if path.lead = .current then above ++ [⟨.none, []⟩] else above

/-- Follows the steps of a base through the pieces of a path. -/
def follow? : List String → List String → Option (List String)
  | [], rest => some rest
  | _ :: _, [] => none
  | step :: base, piece :: rest =>
      if isIdle piece then follow? (step :: base) rest
      else if step = piece then follow? base rest
      else none

def below? (base path : Path) : Option Path :=
  let steps := base.pieces.filter (!isIdle ·)
  if base.lead = .none ∧ steps = [] then some ⟨path.lead, dropIdleEnd path.pieces⟩
  else if base.lead = path.lead then
    (follow? steps path.pieces).map fun rest => ⟨.none, dropIdleEnd (rest.dropWhile isIdle)⟩
  else none

/-- The name without its extension; a dot at the front starts no extension. -/
def stem? (path : Path) : Option String :=
  path.name?.map fun name =>
    match Text.cutLast? ['.'] name.toList with
    | none | some ([], _) => name
    | some (stem, _) => String.ofList stem

def withExtension (path : Path) (extension : String) : Path :=
  match path.stem? with
  | none => path
  | some stem =>
      ⟨path.lead, (dropIdleEnd path.pieces).dropLast ++ [stem ++ "." ++ extension]⟩

def entry (directory name : String) : String :=
  match directory.toList.getLast? with
  | none | some '/' => directory ++ name
  | some _ => directory ++ "/" ++ name

end Path
end ContractTables
