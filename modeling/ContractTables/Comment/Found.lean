import ContractTables.Comment.Region
import ContractTables.Comment.Tag
import ContractTables.Tables

/-!
Comments of definitions and declarations, recovered from the source lines before them. A
definition's comment is divided into its tags, and its description is the first of title,
notice, dev and return that is there, or else its first sentence. A declaration's comment
joins the lines above it and the comment beside it.
-/
namespace ContractTables

open Text

structure FoundComment where
  comment : DefinitionComment
  params : List Comment.ParamDoc

namespace Comment

def ownTags : List String := ["title", "notice", "dev", "return", "param"]

def firstSentence (text : List Char) : String := String.ofList (text.takeWhile (· ≠ '.'))

def description (tags : Dictionary String) (full : List Char) : String :=
  (["title", "notice", "dev", "return"].findSome? tags.find?).getD (firstSentence full)

def natspec (tags : Dictionary String) (params : List ParamDoc) : NatSpec :=
  let text (tag : String) := (tags.find? tag).getD ""
  { title := text "title", notice := text "notice", dev := text "dev", returns := text "return",
    params := params.map ParamDoc.name, other := tags.eraseAll ownTags }

def ofText (full : List Char) : FoundComment :=
  let tags := tags full
  let params := ((tags.find? "param").map paramDocs).getD []
  { comment := { full := String.ofList full, description := description tags full,
                 natspec := natspec tags params }
    params }

/-- The comment of a definition whose source begins right after the region. -/
def ofDefinition? (region : List Line) : Option FoundComment :=
  match clean region with
  | [] => none
  | lines => some (ofText (unlines lines))

/-- The comment of a declaration in the last line of the region. A comment that stands
only beside the declaration is its description too, with its tags. -/
def ofDeclaration? (region : List Line) : Option DeclarationComment :=
  let (above, beside) := cleanDeclaration region
  let words (lines : List Line) := String.ofList ([' '].intercalate (lines.map untagged))
  match above, beside with
  | [], [] => none
  | [], beside =>
      let text := String.ofList beside
      some { full := text, description := text, inline := text }
  | above, [] =>
      some { full := String.ofList (unlines above), description := words above, inline := "" }
  | above, beside =>
      some { full := String.ofList (unlines (above ++ [beside])), description := words above,
             inline := String.ofList (untagged beside) }

end Comment
end ContractTables
