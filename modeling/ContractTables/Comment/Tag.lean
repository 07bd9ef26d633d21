import ContractTables.Dictionary
import ContractTables.Text.Blank
import ContractTables.Text.Line

/-!
The `@tag` sections of a cleaned comment. A tag opens a section only at the start of a
line; the section runs on to the next tag line and its text is folded into one line. Text
before the first tag line is in no section.
-/
namespace ContractTables.Comment

open Text

def isTagLetter (c : Char) : Bool := 'a' ≤ c && c ≤ 'z'

/-- The name of a tag at the start of a text and what follows it. -/
def tagAt? : List Char → Option (List Char × List Char)
  | '@' :: rest =>
      match rest.takeWhile isTagLetter with
      | [] => none
      | name => some (name, rest.dropWhile isTagLetter)
  | _ => none

structure Section where
  tag : String
  text : String

def Section.fold (tag : List Char) (lines : List Line) : Section :=
  ⟨String.ofList tag, String.ofList (trim ([' '].intercalate lines))⟩

/-- The lines before the first tag line, and the sections. -/
def sections : List Line → List Line × List Section
  | [] => ([], [])
  | line :: rest =>
      let (body, later) := sections rest
      match tagAt? line with
      | some (tag, first) => ([], Section.fold tag (first :: body) :: later)
      | none => (line :: body, later)

/-- Sections of one tag are joined by line breaks; empty ones at the front leave none. -/
def addSection (tags : Dictionary String) (s : Section) : Dictionary String :=
  match tags.find? s.tag with
  | none => tags.insert s.tag s.text
  | some earlier =>
      tags.insert s.tag (if earlier.isEmpty then s.text else earlier ++ "\n" ++ s.text)

def tags (comment : List Char) : Dictionary String :=
  (sections (comment.splitOn '\n')).2.foldl addSection .empty

structure ParamDoc where
  name : String
  description : String

def ParamDoc.ofLine (line : Line) : ParamDoc :=
  ⟨String.ofList (line.takeWhile (!isBlank ·)), String.ofList (trim (line.dropWhile (!isBlank ·)))⟩

/-- One entry for each line of the joined `@param` sections that is not blank. -/
def paramDocs (joined : String) : List ParamDoc :=
  (((joined.toList.splitOn '\n').map trim).filter (!·.isEmpty)).map ParamDoc.ofLine

def afterLastTag? : List Char → Option (List Char)
  | [] => none
  | c :: rest =>
      match afterLastTag? rest with
      | some after => some after
      | none => (tagAt? (c :: rest)).map Prod.snd

def untagged (line : Line) : Line := trim ((afterLastTag? line).getD line)

end ContractTables.Comment
