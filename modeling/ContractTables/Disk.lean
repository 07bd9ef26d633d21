import ContractTables.FileTree
import ContractTables.Path

/-!
A disk without links: a directory tree and the current directory in it. A path is
followed piece by piece, and every piece but the last has to lead to a directory.
A text that is empty, longer than 4095 bytes or holds a null character is no path and
leads nowhere, and no entry is made under a name of more than 255 bytes.
-/
namespace ContractTables

structure Disk where
  root : FileTree
  current : List String

namespace Disk

def isPath (text : String) : Bool :=
  !text.isEmpty && text.utf8ByteSize ≤ 4095 && !text.toList.contains (Char.ofNat 0)

/-- Whether an entry can be made under a name; dots lead to what is there already. -/
def isNewName (name : String) : Bool :=
  !Path.isIdle name && name ≠ ".." && name.utf8ByteSize ≤ 255

def isDirAt (disk : Disk) (place : List String) : Bool :=
  (disk.root.at? place).any FileTree.isDir

def step? (disk : Disk) (place : List String) (piece : String) : Option (List String) :=
  if !disk.isDirAt place then none
  else if Path.isIdle piece then some place
  else if piece = ".." then some place.dropLast
  else
    let next := place ++ [piece]
    (disk.root.at? next).map fun _ => next

def start (disk : Disk) (path : Path) : List String :=
  if path.lead = .root then [] else disk.current

/-- The place of what a path leads to, if it is there. -/
def place? (disk : Disk) (text : String) : Option (List String) :=
  if isPath text then
    let path := Path.parse text
    path.pieces.foldlM disk.step? (disk.start path)
  else none

def node? (disk : Disk) (text : String) : Option FileTree :=
  (disk.place? text).bind fun place => disk.root.at? place

def isDir (disk : Disk) (text : String) : Bool := (disk.node? text).any FileTree.isDir

def isFile (disk : Disk) (text : String) : Bool := (disk.node? text).any (!·.isDir)

def bytes? (disk : Disk) (text : String) : Option ByteArray :=
  match disk.node? text with
  | some (.file content) => some content
  | _ => none

/-- The content of a file that holds a text. -/
def read? (disk : Disk) (text : String) : Option String :=
  (disk.bytes? text).bind fun content => String.fromUTF8? content

/-- The place of a new or old entry of an existing directory. Slashes after the name
do not matter. -/
def entryPlace? (disk : Disk) (path : Path) : Option (List String) := do
  let pieces := (path.pieces.reverse.dropWhile (·.isEmpty)).reverse
  let name ← pieces.getLast?
  let directory ← pieces.dropLast.foldlM disk.step? (disk.start path)
  if isPath path.text && disk.isDirAt directory && isNewName name then some (directory ++ [name])
  else none

/-- Makes one directory where nothing is yet. -/
def makeDir? (disk : Disk) (path : Path) : Option Disk := do
  let place ← disk.entryPlace? path
  match disk.root.at? place with
  | some _ => none
  | none => some { disk with root := disk.root.put place (.dir []) }

/-- Makes a directory and those above it, as far as they are missing. -/
def makeDirs? (disk : Disk) (text : String) : Option Disk :=
  let path := Path.parse text
  ((path :: path.parents).reverse.filter (!·.text.isEmpty)).foldlM
    (fun disk path =>
      disk.makeDir? path <|> if disk.isDir path.text then some disk else none)
    disk

/-- Makes a file or replaces its content. -/
def write? (disk : Disk) (text content : String) : Option Disk := do
  let path := Path.parse text
  let place ← disk.entryPlace? path
  if path.pieces.getLast? = some "" || disk.isDirAt place then none
  else some { disk with root := disk.root.put place (.file content.toUTF8) }

end Disk
end ContractTables
