/-!
Lines of a source text. A line ends at a line feed, which takes one carriage return
before it along; what follows the last line feed is a line only if it is not empty.
-/
namespace ContractTables.Text

abbrev Line := List Char

def dropReturn (line : Line) : Line :=
  if line.getLast? = some '\r' then line.dropLast else line

def lines (text : List Char) : List Line :=
  let pieces := text.splitOn '\n'
  pieces.dropLast.map dropReturn ++ pieces.getLast?.toList.filter (!·.isEmpty)

def unlines (lines : List Line) : List Char := ['\n'].intercalate lines

end ContractTables.Text
