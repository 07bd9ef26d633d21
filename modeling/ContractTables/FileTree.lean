import ContractTables.Dictionary

/-!
Directory trees. Entries stand by ascending name, and a file is its bytes.
-/
namespace ContractTables

inductive FileTree where
  | file (content : ByteArray)
  | dir (entries : List (String × FileTree))

namespace FileTree

def isDir : FileTree → Bool
  | dir _ => true
  | file _ => false

def entry? (name : String) : FileTree → Option FileTree
  | dir entries => entries.lookup name
  | file _ => none

def at? : List String → FileTree → Option FileTree
  | [], tree => some tree
  | name :: rest, tree => (tree.entry? name).bind (at? rest)

/-- Puts a tree at a place, with new directories on the way to it. -/
def put : FileTree → List String → FileTree → FileTree
  | _, [], new => new
  | tree, name :: rest, new =>
      let entries := match tree with
        | dir entries => entries
        | file _ => []
      dir (insertEntry name (put ((entries.lookup name).getD (dir [])) rest new) entries)

mutual
/-- The places of the files below a directory, in the order of the names on the way.
A directory is entered, and a file taken, only if its name is kept. -/
def select (keepDir keepFile : String → Bool) : FileTree → List (List String)
  | file _ => []
  | dir entries => selectEntries keepDir keepFile entries

def selectEntries (keepDir keepFile : String → Bool) :
    List (String × FileTree) → List (List String)
  | [] => []
  | (name, .file _) :: rest =>
      (if keepFile name then [[name]] else []) ++ selectEntries keepDir keepFile rest
  | (name, .dir entries) :: rest =>
      (if keepDir name then (selectEntries keepDir keepFile entries).map (name :: ·) else []) ++
        selectEntries keepDir keepFile rest
end

/-- The places of the directories below a directory that are entered, in the same order. -/
def entered (keepDir : String → Bool) : List (String × FileTree) → List (List String)
  | [] => []
  | (_, .file _) :: rest => entered keepDir rest
  | (name, .dir entries) :: rest =>
      (if keepDir name then [name] :: (entered keepDir entries).map (name :: ·) else []) ++
        entered keepDir rest

end FileTree
end ContractTables
