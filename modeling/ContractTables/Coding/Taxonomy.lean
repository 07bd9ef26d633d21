/-!
Coding taxonomies: categories in order, each found by its keywords and refined by its
topics. Names and words may repeat; a name refers to the first category that bears it.
-/
namespace ContractTables

structure Category where
  name : String
  keywords : List String
  topics : List String
  deriving DecidableEq

structure Taxonomy where
  categories : List Category
  deriving DecidableEq

namespace Taxonomy

def find? (taxonomy : Taxonomy) (name : String) : Option Category :=
  taxonomy.categories.find? (·.name = name)

/-- Categories of decentralised governance. -/
def governance : Taxonomy where
  categories :=
    [⟨"proposal", ["Proposal", "Propose"], ["create", "modify", "execute", "extend", "cancel"]⟩,
     ⟨"membership", ["Member", "Role"],
      ["permission", "responsibility", "right", "allow", "require", "forbid", "authorize"]⟩,
     ⟨"voting", ["Vote", "Voting", "Ballot"],
      ["cast", "delegate", "change", "tally", "compute", "referendum"]⟩,
     ⟨"dispute_resolution", ["Dispute", "Adjudication", "Arbitrator"],
      ["juror", "jury", "evidence", "ruling", "appeal", "create", "compute", "execute", "reward",
       "penalty", "sortition"]⟩,
     ⟨"reputation", ["Reputation"], ["reward", "penalty", "penalize"]⟩,
     ⟨"election", ["Elect", "Candidate"], []⟩]

end Taxonomy
end ContractTables
