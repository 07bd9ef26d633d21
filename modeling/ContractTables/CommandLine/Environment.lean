import ContractTables.CommandLine.Environment.Entry

/-!
The variables of a run, from its surroundings and from a file of entries. A variable keeps
the first value it gets, so what is set already wins over the file. The file is read up to
its first malformed entry or the first line that is no text.
-/
namespace ContractTables.CommandLine

abbrev Environment := List (String × String)

namespace Environment

def valueOf (environment : Environment) (name : List Char) : List Char :=
  ((environment.lookup (String.ofList name)).getD "").toList

/-- The lines of a file as far as they are text, each with its line feed. A byte order
mark at the front is none of it. -/
def textLines (content : ByteArray) : List (List Char) :=
  let pieces := content.toList.splitOn 10
  let ended := pieces.dropLast.map (· ++ [10]) ++ pieces.getLast?.toList.filter (!·.isEmpty)
  let read := ended.map fun bytes => (String.fromUTF8? ⟨bytes.toArray⟩).map String.toList
  match (read.takeWhile Option.isSome).filterMap id with
  | (c :: line) :: rest => (if c = '\ufeff' then line else c :: line) :: rest
  | lines => lines

/-- Sets the variables of entries one after the other. A value with a null character
cannot be held, and nothing comes of the whole. -/
def extend? (environment : Environment) : List (List Char) → Option Environment
  | [] => some environment
  | entry :: rest =>
      if (Text.trim entry).isEmpty then extend? environment rest
      else
        match Entry.read? environment.valueOf entry with
        | none => some environment
        | some (name, value) =>
            let name := String.ofList name
            if (environment.lookup name).isSome then extend? environment rest
            else if value.contains (Char.ofNat 0) then none
            else extend? (environment ++ [(name, String.ofList value)]) rest

def extendFrom? (environment : Environment) (content : ByteArray) : Option Environment :=
  environment.extend? (Entry.join .nothing [] (textLines content))

end Environment
end ContractTables.CommandLine
