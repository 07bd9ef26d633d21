import Mathlib.Algebra.Ring.Nat
import Mathlib.Data.List.Nodup
import ContractTables.Proofs.Coding.Codes

/-!
How often codes are reported. A keyword is reported once for each category of its name that
is found, and a topic as often as the first categories of these names list it. So codes
repeat themselves only where a taxonomy repeats a name or a word, and one that does neither
reports each keyword once and each topic once for every category that it is found under.
-/
namespace ContractTables

structure Taxonomy.Distinct (taxonomy : Taxonomy) : Prop where
  names : (taxonomy.categories.map Category.name).Nodup
  topics : ∀ category ∈ taxonomy.categories, category.topics.Nodup

theorem Taxonomy.Distinct.bearer_eq {taxonomy : Taxonomy} (distinct : taxonomy.Distinct)
    {category : Category} (member : category ∈ taxonomy.categories) :
    taxonomy.bearer category = category := by
  have found := find?_name_of_mem member
  rw [find?] at found
  have named : (taxonomy.bearer category).name = category.name := by
    simpa using List.find?_some found
  exact List.inj_on_of_nodup_map distinct.names (List.mem_of_find?_eq_some found) member named

theorem Taxonomy.distinct_governance : governance.Distinct := ⟨by decide, by decide⟩

namespace Coding

section Run

variable (taxonomy : Taxonomy) (object : ObjectRow) (parameters : List ParameterRow)

theorem count_keywords (name : String) :
    (keywords taxonomy object parameters).count name =
      (matched taxonomy object parameters).countP (·.name = name) := by
  rw [keywords_eq_map, List.count, List.countP_map]
  rfl

/-- How often the first categories of the names that are found list a word. -/
def listings (word : String) : Nat :=
  ((matched taxonomy object parameters).map fun category =>
    (taxonomy.bearer category).topics.count word).sum

theorem count_topics_keywords (word : String) :
    (topics taxonomy (keywords taxonomy object parameters) object parameters).count word =
      if mentions object parameters word then listings taxonomy object parameters word else 0 := by
  rw [topics_keywords]
  by_cases found : mentions object parameters word
  · rw [if_pos found, List.count_flatMap]
    refine congrArg List.sum (List.map_congr_left fun category _ => ?_)
    exact List.count_filter found
  · rw [if_neg found, List.count_eq_zero]
    intro member
    obtain ⟨category, _, inside⟩ := List.mem_flatMap.mp member
    exact found (List.mem_filter.mp inside).2

end Run

/-- Codes that say each thing once: no keyword twice, and each word that is found once for
every category that is found and lists it. -/
structure OnceEach (taxonomy : Taxonomy) (object : ObjectRow) (parameters : List ParameterRow) :
    Prop where
  keywords : (keywords taxonomy object parameters).Nodup
  topics : ∀ word,
    (topics taxonomy (Coding.keywords taxonomy object parameters) object parameters).count word =
      if mentions object parameters word then
        (matched taxonomy object parameters).countP (word ∈ ·.topics)
      else 0

section Sums

variable {bearer : Category → Category} {word : String} {categories : List Category}
  (kept : ∀ category ∈ categories, word ∈ category.topics → word ∈ (bearer category).topics)

include kept

theorem countP_le_sum_count :
    categories.countP (word ∈ ·.topics) ≤
      (categories.map fun category => (bearer category).topics.count word).sum := by
  induction categories with
  | nil => exact Nat.le_refl 0
  | cons category rest ih =>
      obtain ⟨first, others⟩ := List.forall_mem_cons.mp kept
      rw [List.countP_cons, List.map_cons, List.sum_cons, Nat.add_comm]
      refine Nat.add_le_add ?_ (ih others)
      split
      · next listed => exact List.one_le_count_iff.mpr (first (of_decide_eq_true listed))
      · exact Nat.zero_le _

/-- As no category has a word that its bearer lacks, the sums agree only term by term. -/
theorem sum_count_eq_countP_iff :
    (categories.map fun category => (bearer category).topics.count word).sum =
        categories.countP (word ∈ ·.topics) ↔
      ∀ category ∈ categories,
        (bearer category).topics.count word = if word ∈ category.topics then 1 else 0 := by
  induction categories with
  | nil => simp
  | cons category rest ih =>
      obtain ⟨first, others⟩ := List.forall_mem_cons.mp kept
      have atLeast := countP_le_sum_count others
      rw [List.forall_mem_cons, ← ih others, List.countP_cons, List.map_cons, List.sum_cons]
      by_cases listed : word ∈ category.topics
      · have once : 1 ≤ (bearer category).topics.count word :=
          List.one_le_count_iff.mpr (first listed)
        rw [if_pos (decide_eq_true listed), if_pos listed]
        omega
      · rw [if_neg (by simpa using listed), if_neg listed]
        omega

end Sums

section Repeats

variable {taxonomy : Taxonomy} {object : ObjectRow} {parameters : List ParameterRow}

theorem nodup_keywords_iff :
    (keywords taxonomy object parameters).Nodup ↔
      (matched taxonomy object parameters).Pairwise fun one other => one.name ≠ other.name := by
  rw [keywords_eq_map, List.Nodup, List.pairwise_map]

theorem onceEach_iff_listings :
    OnceEach taxonomy object parameters ↔
      ((matched taxonomy object parameters).Pairwise fun one other => one.name ≠ other.name) ∧
        ∀ word, mentions object parameters word →
          listings taxonomy object parameters word =
            (matched taxonomy object parameters).countP (word ∈ ·.topics) := by
  constructor
  · intro once
    refine ⟨nodup_keywords_iff.mp once.keywords, fun word found => ?_⟩
    have counted := once.topics word
    rwa [count_topics_keywords, if_pos found, if_pos found] at counted
  · rintro ⟨names, words⟩
    refine ⟨nodup_keywords_iff.mpr names, fun word => ?_⟩
    rw [count_topics_keywords]
    split
    · next found => exact words word found
    · rfl

/-- Under a taxonomy that repeats names without losing words by it, codes say each thing once
exactly where no name is found twice and each word is listed once by the first category of a
name if it is listed at all by the one that is found. -/
theorem onceEach_iff
    (kept : ∀ word, mentions object parameters word →
      ∀ category ∈ matched taxonomy object parameters, word ∈ category.topics →
        word ∈ (taxonomy.bearer category).topics) :
    OnceEach taxonomy object parameters ↔
      ((matched taxonomy object parameters).Pairwise fun one other => one.name ≠ other.name) ∧
        ∀ word, mentions object parameters word →
          ∀ category ∈ matched taxonomy object parameters,
            (taxonomy.bearer category).topics.count word =
              if word ∈ category.topics then 1 else 0 :=
  onceEach_iff_listings.trans <| and_congr_right fun _ => forall_congr' fun word =>
    forall_congr' fun found => sum_count_eq_countP_iff (kept word found)

section Distinct

variable (object : ObjectRow) (parameters : List ParameterRow) (distinct : taxonomy.Distinct)

include distinct

theorem kept_of_distinct :
    ∀ word, mentions object parameters word →
      ∀ category ∈ matched taxonomy object parameters, word ∈ category.topics →
        word ∈ (taxonomy.bearer category).topics := by
  intro word _ category member listed
  rwa [distinct.bearer_eq (List.mem_filter.mp member).1]

theorem listed_once_of_distinct :
    ((matched taxonomy object parameters).Pairwise fun one other => one.name ≠ other.name) ∧
      ∀ word, mentions object parameters word →
        ∀ category ∈ matched taxonomy object parameters,
          (taxonomy.bearer category).topics.count word =
            if word ∈ category.topics then 1 else 0 := by
  constructor
  · rw [← nodup_keywords_iff, keywords_eq_map]
    exact distinct.names.sublist (List.filter_sublist.map Category.name)
  · intro word _ category member
    have among := (List.mem_filter.mp member).1
    rw [distinct.bearer_eq among]
    exact (distinct.topics category among).count

/-- So a taxonomy in which nothing stands twice reports everything once. -/
theorem onceEach_of_distinct : OnceEach taxonomy object parameters :=
  (onceEach_iff (kept_of_distinct object parameters distinct)).mpr
    (listed_once_of_distinct object parameters distinct)

end Distinct

end Repeats

/-- How often each code is reported under any taxonomy, and when codes say each thing once:
where no name is found twice and each word has as many listings as categories. Where no word
is lost by a repeated name, this is so category by category. -/
theorem counts_of_codes (taxonomy : Taxonomy) (object : ObjectRow)
    (parameters : List ParameterRow) :
    (∀ name, (keywords taxonomy object parameters).count name =
      (matched taxonomy object parameters).countP (·.name = name)) ∧
    (∀ word,
      (topics taxonomy (keywords taxonomy object parameters) object parameters).count word =
        if mentions object parameters word then listings taxonomy object parameters word
        else 0) ∧
    (OnceEach taxonomy object parameters ↔
      ((matched taxonomy object parameters).Pairwise fun one other =>
        one.name ≠ other.name) ∧
      ∀ word, mentions object parameters word →
        listings taxonomy object parameters word =
          (matched taxonomy object parameters).countP (word ∈ ·.topics)) ∧
    ((∀ word, mentions object parameters word →
        ∀ category ∈ matched taxonomy object parameters, word ∈ category.topics →
          word ∈ (taxonomy.bearer category).topics) →
      (OnceEach taxonomy object parameters ↔
        ((matched taxonomy object parameters).Pairwise fun one other =>
          one.name ≠ other.name) ∧
        ∀ word, mentions object parameters word →
          ∀ category ∈ matched taxonomy object parameters,
            (taxonomy.bearer category).topics.count word =
              if word ∈ category.topics then 1 else 0)) :=
  ⟨count_keywords taxonomy object parameters, count_topics_keywords taxonomy object parameters,
    onceEach_iff_listings, onceEach_iff⟩

def executeProposal : ObjectRow where
  definition := ⟨"executeProposal", .function, "Dao", [], [], [], "", ⟨1, 1⟩⟩
  comment := { description := "Resolves a dispute", natspec := { other := .empty } }

theorem onceEach_executeProposal : OnceEach .governance executeProposal [] :=
  ((counts_of_codes _ _ _).2.2.2 (kept_of_distinct _ _ Taxonomy.distinct_governance)).mpr
    (listed_once_of_distinct _ _ Taxonomy.distinct_governance)

def splitVoting : Taxonomy where
  categories := [⟨"voting", ["Vote"], ["cast"]⟩, ⟨"voting", ["Ballot"], []⟩]

def castVoteByBallot : ObjectRow where
  definition := ⟨"castVoteByBallot", .function, "Dao", [], [], [], "", ⟨1, 1⟩⟩
  comment := { natspec := { other := .empty } }

/-- Both are found by one name, so the keyword stands twice, and its topic with it. -/
theorem voting_reported_twice : ¬ OnceEach splitVoting castVoteByBallot [] := by
  have codes : codes splitVoting castVoteByBallot [] =
      ⟨["voting", "voting"], ["cast", "cast"]⟩ := by decide +kernel
  intro once
  have keywords : keywords splitVoting castVoteByBallot [] = ["voting", "voting"] :=
    congrArg Codes.keywords codes
  have distinct := once.keywords
  rw [keywords] at distinct
  exact absurd distinct (by decide)

end Coding
end ContractTables
