import ContractTables.Text.Blank
import ContractTables.Text.Case
import ContractTables.Text.Search

/-!
When a word is found. In an identifier it is found as it is written anywhere, or in any
case at the start once underscores at the ends are gone; so `getProposal` and
`_proposalCount` both hold `Proposal`. In running text it is found in any case anywhere.
-/
namespace ContractTables.Coding

open Text

def inIdentifier (identifier word : String) : Bool :=
  !identifier.isEmpty && !word.isEmpty &&
    (occurs word.toList identifier.toList ||
      startsWith (lower word.toList) (lower (stripBoth (· = '_') identifier.toList)))

def inText (text word : String) : Bool :=
  !text.isEmpty && !word.isEmpty && occurs (lower word.toList) (lower text.toList)

end ContractTables.Coding
