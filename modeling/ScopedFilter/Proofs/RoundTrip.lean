import Mathlib
import ScopedFilter.Filter.Meaning
import ScopedFilter.Proofs.Rereading

/-!
Round trips through text. Writing and reading a filter keeps its tests in order and its meaning;
a filter that came from a text comes back the same, but for two kinds of tests. Main statements:
`parse_toText_keeps_meaning` and `parse_toText_of_parsed`.
-/

namespace ScopedFilter

def Leaf.ReadsBack (test : Leaf) : Prop := test.reread = .leaf test

theorem Leaf.readsBack_iff {test : Leaf} :
    test.ReadsBack ↔
      test ≠ .term (some "*") "*" ∧ ∀ field, test ≠ .term field "" := by
  rw [ReadsBack]
  cases test with
  | term field value =>
      simp only [Leaf.reread, ne_eq, Leaf.term.injEq, not_and]
      split
      · rename_i empty
        subst empty
        simp
      · split <;> simp_all
  | _ => simp [Leaf.reread]

namespace Filter

theorem flatMap_leaves_flatten (conjunctions : List (List Filter)) :
    conjunctions.flatten.flatMap leaves =
      conjunctions.flatMap fun members => (joined and all members).leaves := by
  rw [← List.flatMap_id, List.flatMap_assoc]
  simp only [leaves_joined_and, id]

theorem leaves_ofAlternatives (alternatives : List (List Filter)) :
    (ofAlternatives alternatives).leaves = alternatives.flatten.flatMap leaves := by
  rw [ofAlternatives, leaves_joined_or, List.flatMap_map, flatMap_leaves_flatten]

theorem leaves_clausesAdded (wrap : Bool) (alternatives : List (List Filter)) :
    (clausesAdded wrap alternatives).flatMap leaves = alternatives.flatten.flatMap leaves := by
  cases wrap with
  | true => simp [clausesAdded, leaves, leaves_ofAlternatives]
  | false => rfl

theorem leaves_grouped (wrap : Bool) (filter : Filter) :
    (grouped wrap filter).leaves = filter.leaves := by
  cases wrap <;> simp [grouped, leaves]

theorem leaves_reread {filter : Filter} (faithful : ∀ test ∈ filter.leaves, test.ReadsBack) :
    filter.reread.leaves = filter.leaves := by
  rw [reread, leaves_ofAlternatives]
  induction filter with
  | leaf test =>
      have same := faithful test (by simp [leaves])
      simp [alternatives, leaves, show test.reread = leaf test from same]
  | not child ih =>
      rw [leaves] at faithful
      simp [alternatives, leaves, leaves_grouped, leaves_ofAlternatives, ih faithful]
  | and members ih =>
      simp only [leaves, List.forall_mem_flatMap] at faithful
      rw [alternatives]
      split
      · rename_i empty
        simp [List.isEmpty_iff.mp empty, leaves]
      · rw [List.flatten_singleton, List.flatMap_assoc, leaves]
        simp only [leaves_clausesAdded]
        exact List.flatMap_congr fun member known => ih member known (faithful member known)
  | or members ih =>
      simp only [leaves, List.forall_mem_flatMap] at faithful
      rw [alternatives]
      split
      · rename_i empty
        simp [List.isEmpty_iff.mp empty, leaves]
      · rw [flatMap_leaves_flatten, List.flatMap_assoc, leaves]
        simp only [← flatMap_leaves_flatten]
        exact List.flatMap_congr fun member known => ih member known (faithful member known)
  | group child ih =>
      rw [leaves] at faithful
      simp [alternatives, leaves, leaves_ofAlternatives, ih faithful]
  | all => simp [alternatives, leaves]
  | none => simp [alternatives, leaves]

section Meaning

variable (valuation : Leaf → Bool)

theorem holds_ofAlternatives (alternatives : List (List Filter)) :
    (ofAlternatives alternatives).holds valuation =
      alternatives.any fun members => members.all (holds valuation) := by
  rw [ofAlternatives, holds_joined_or, List.any_map]
  congr 1
  funext members
  exact holds_joined_and valuation members

theorem holds_grouped (wrap : Bool) (filter : Filter) :
    (grouped wrap filter).holds valuation = filter.holds valuation := by
  cases wrap <;> simp [grouped]

theorem holds_clausesAdded (filter : Filter) :
    (clausesAdded filter.isOr filter.alternatives).all (holds valuation) =
      filter.reread.holds valuation := by
  cases join : filter.isOr with
  | true => simp [clausesAdded, reread]
  | false =>
      rw [reread, alternatives_of_not_isOr join]
      simp [clausesAdded, holds_ofAlternatives]

theorem holds_reread {filter : Filter} (faithful : ∀ test ∈ filter.leaves, test.ReadsBack) :
    filter.reread.holds valuation = filter.holds valuation := by
  induction filter with
  | leaf test =>
      have same := faithful test (by simp [leaves])
      rw [reread_leaf, show test.reread = leaf test from same]
  | not child ih =>
      rw [leaves] at faithful
      rw [reread_not, holds_not, holds_grouped, ih faithful, holds_not]
  | and members ih =>
      simp only [leaves, List.forall_mem_flatMap] at faithful
      rw [reread, alternatives, holds_ofAlternatives, holds_and]
      split
      · rename_i empty
        simp [List.isEmpty_iff.mp empty]
      · simp only [List.any_cons, List.any_nil, Bool.or_false, List.all_flatMap,
          holds_clausesAdded]
        apply all_congr_of_mem
        intro member known
        exact ih member known (faithful member known)
  | or members ih =>
      simp only [leaves, List.forall_mem_flatMap] at faithful
      rw [reread, alternatives, holds_ofAlternatives, holds_or]
      split
      · rename_i empty
        simp [List.isEmpty_iff.mp empty]
      · simp only [List.any_flatMap, ← holds_ofAlternatives]
        apply any_congr_of_mem
        intro member known
        rw [← reread, ih member known (faithful member known)]
  | group child ih =>
      rw [leaves] at faithful
      rw [reread_group, holds_group, ih faithful, holds_group]
  | all => rw [reread_all]
  | none => simp

end Meaning

/-- Whatever a filter looks like, its text reads back to the same tests in the same order and to the
same meaning, as long as its parentheses and negations stay within what reading allows. -/
theorem parse_toText_keeps_meaning {filter : Filter}
    (named : ∀ test ∈ filter.leaves, test.field? ≠ some "")
    (valued : ∀ field, Leaf.term field "" ∉ filter.leaves)
    (starless : Leaf.term (some "*") "*" ∉ filter.leaves) (shallow : filter.nesting ≤ 127) :
    ∃ again, Filter.parse (filter.toText .standard) = .ok again ∧ again.leaves = filter.leaves ∧
      ∀ valuation, again.holds valuation = filter.holds valuation := by
  have faithful : ∀ test ∈ filter.leaves, test.ReadsBack := by
    intro test known
    rw [Leaf.readsBack_iff]
    refine ⟨?_, fun field => ?_⟩
    · rintro rfl
      exact starless known
    · rintro rfl
      exact valued field known
  exact ⟨filter.reread, (parse_toText_iff named).mpr ⟨Nat.lt_succ_of_le shallow, rfl⟩,
    leaves_reread faithful, fun valuation => holds_reread valuation faithful⟩

theorem parse_toText_keeps_meaning_odd :
    let filter := and [or [leaf (.term Option.none "-x"), and []],
      not (or [leaf (.range "n" "" "TO" ⟨true, false⟩), none]),
      and [leaf (.phrase (some "AND") "say \"hi\"")]]
    (∀ test ∈ filter.leaves, test.field? ≠ some "") ∧
      (∀ field, Leaf.term field "" ∉ filter.leaves) ∧
      Leaf.term (some "*") "*" ∉ filter.leaves ∧ filter.nesting ≤ 127 ∧
      ∃ again, Filter.parse (filter.toText .standard) = .ok again ∧ again.leaves = filter.leaves ∧
        ∀ valuation, again.holds valuation = filter.holds valuation := by
  intro filter
  have named : ∀ test ∈ filter.leaves, test.field? ≠ some "" := by
    simp [filter, leaves, Leaf.field?]
  have valued : ∀ field, Leaf.term field "" ∉ filter.leaves := by simp [filter, leaves]
  have starless : Leaf.term (some "*") "*" ∉ filter.leaves := by simp [filter, leaves]
  have shallow : filter.nesting ≤ 127 := by simp [filter, nesting, deepest, isJoin, isOr]
  exact ⟨named, valued, starless, shallow,
    parse_toText_keeps_meaning named valued starless shallow⟩

section Canonical

variable {members : List Filter}

theorem joined_of_two_le {join : List Filter → Filter} {empty : Filter}
    (several : 2 ≤ members.length) : joined join empty members = join members := by
  rcases members with _ | ⟨first, _ | ⟨second, rest⟩⟩
  · simp at several
  · simp at several
  · rfl

theorem not_isEmpty_of_two_le (several : 2 ≤ members.length) : ¬members.isEmpty = true := by
  cases members with
  | nil => simp at several
  | cons => simp

theorem reread_and (several : 2 ≤ members.length)
    (clauses : ∀ member ∈ members, member.isJoin = false) :
    (and members).reread = and (members.map reread) := by
  have added : members.flatMap (fun member => clausesAdded member.isOr member.alternatives) =
      members.map reread := by
    rw [← List.flatMap_singleton' (members.map reread), List.flatMap_map]
    refine List.flatMap_congr fun member known => ?_
    have single := clauses member known
    rw [isOr_eq_false_of_not_isJoin single, alternatives_of_not_isJoin single]
    rfl
  have several' : 2 ≤ (members.map reread).length := by simpa using several
  rw [reread, alternatives, if_neg (not_isEmpty_of_two_le several), added, ofAlternatives,
    List.map_singleton, joined, joined_of_two_le several']

theorem reread_or (several : 2 ≤ members.length)
    (conjunctions : ∀ member ∈ members, member.isOr = false) :
    (or members).reread = or (members.map reread) := by
  have found : (members.flatMap alternatives).map (joined and all) = members.map reread := by
    rw [List.map_flatMap, ← List.flatMap_singleton' (members.map reread), List.flatMap_map]
    refine List.flatMap_congr fun member known => ?_
    rw [reread, alternatives_of_not_isOr (conjunctions member known)]
    rfl
  rw [reread, alternatives, if_neg (not_isEmpty_of_two_le several), ofAlternatives, found,
    joined_of_two_le (by simpa using several)]

theorem map_reread_eq_self_iff :
    members.map reread = members ↔ ∀ member ∈ members, member.reread = member := by
  conv_lhs => rw [← List.map_id members, List.map_map]
  exact List.map_inj_left

theorem reread_eq_self_iff {filter : Filter} (canonical : Canonical filter) :
    filter.reread = filter ↔ ∀ test ∈ filter.leaves, test.ReadsBack := by
  induction canonical with
  | @leaf test =>
      rw [reread_leaf, leaves, List.forall_mem_singleton]
      exact Iff.rfl
  | not single _ ih =>
      rw [reread_not, single, grouped, if_neg Bool.false_ne_true, not.injEq, ih, leaves]
  | and several clauses _ ih =>
      rw [reread_and several clauses, and.injEq, map_reread_eq_self_iff, leaves,
        List.forall_mem_flatMap]
      exact forall₂_congr ih
  | or several conjunctions _ ih =>
      rw [reread_or several conjunctions, or.injEq, map_reread_eq_self_iff, leaves,
        List.forall_mem_flatMap]
      exact forall₂_congr ih
  | group _ ih => rw [reread_group, group.injEq, ih, leaves]
  | all => simp [leaves]

end Canonical

/-- What came from a text is written as a text that can be read. The filter comes back the same
unless it has a word without characters or the word `*` on the field `*`. -/
theorem parse_toText_of_parsed {text : String} {filter : Filter}
    (parsed : Filter.parse text = .ok filter) :
    ∃ again, Filter.parse (filter.toText .standard) = .ok again ∧
      (again = filter ↔
        ∀ test ∈ filter.leaves, test ≠ .term (some "*") "*" ∧ ∀ field, test ≠ .term field "") := by
  have known := parsed_of_parse parsed
  refine ⟨filter.reread, (parse_toText_iff known.named).mpr ⟨known.shallow, rfl⟩, ?_⟩
  rw [reread_eq_self_iff known.canonical]
  exact forall₂_congr fun _ _ => Leaf.readsBack_iff

theorem parse_toText_of_parsed_group :
    let text := "status:open -(type:\"a b\" OR n:>5) \\AND"
    let filter := and [leaf (.term (some "status") "open"),
      not (group (or [leaf (.phrase (some "type") "a b"),
        leaf (.range "n" "5" "*" ⟨false, true⟩)])),
      leaf (.term Option.none "AND")]
    Filter.parse text = .ok filter ∧ Filter.parse (filter.toText .standard) = .ok filter := by
  intro text filter
  have parsed : Filter.parse text = .ok filter := by cbv
  obtain ⟨again, reparsed, same⟩ := parse_toText_of_parsed parsed
  rw [same.mpr (by simp [filter, leaves])] at reparsed
  exact ⟨parsed, reparsed⟩

theorem literal_star_reads_as_all :
    let filter := leaf (.term (some "*") "*")
    Filter.parse "*:\\*" = .ok filter ∧
      Filter.parse (filter.toText .standard) = .ok all ∧ all ≠ filter := by
  refine ⟨by cbv, by cbv, by decide⟩

end Filter

end ScopedFilter
