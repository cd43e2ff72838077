import Mathlib.Data.List.Basic
import ScopedFilter.Filter.Meaning
import ScopedFilter.Stack.Rewriting

/-!
The three-valued reading of a filter that reduction stands for. Tests of event fields have no
verdict, a conjunction leaves such members out and a disjunction with one has no verdict itself.
Main statement: `reduce_follows_verdict`.
-/

namespace ScopedFilter.Filter

def verdict (fields : Fields) (valuation : Leaf → Bool) : Filter → Option Bool
  | leaf test => bif fields.decides test then some (valuation test) else Option.none
  | not child => (child.verdict fields valuation).map (!·)
  | and members => some ((members.filterMap (verdict fields valuation)).all id)
  | or members =>
      let parts := members.map (verdict fields valuation)
      bif parts.all Option.isSome then some ((parts.filterMap id).any id) else Option.none
  | group child => child.verdict fields valuation
  | all => some true
  | none => some false

variable (fields : Fields) (valuation : Leaf → Bool)

@[simp] theorem verdict_leaf (test : Leaf) :
    verdict fields valuation (leaf test) =
      bif fields.decides test then some (valuation test) else Option.none := by
  rw [verdict]

@[simp] theorem verdict_not (child : Filter) :
    verdict fields valuation (not child) = (verdict fields valuation child).map (!·) := by
  rw [verdict]

@[simp] theorem verdict_group (child : Filter) :
    verdict fields valuation (group child) = verdict fields valuation child := by
  rw [verdict]

@[simp] theorem verdict_all : verdict fields valuation all = some true := by
  rw [verdict]

@[simp] theorem verdict_none : verdict fields valuation none = some false := by
  rw [verdict]

theorem verdict_and (members : List Filter) :
    verdict fields valuation (and members) =
      some (members.all fun member => (verdict fields valuation member).getD true) := by
  rw [verdict, List.all_filterMap]
  rfl

theorem verdict_and_eq_true_iff (members : List Filter) :
    verdict fields valuation (and members) = some true ↔
      ∀ member ∈ members, verdict fields valuation member ≠ some false := by
  rw [verdict_and, Option.some.injEq, List.all_eq_true]
  refine forall₂_congr fun member _ => ?_
  rcases verdict fields valuation member with _ | _ | _ <;> simp

theorem verdict_and_eq_false_iff (members : List Filter) :
    verdict fields valuation (and members) = some false ↔
      ∃ member ∈ members, verdict fields valuation member = some false := by
  rw [verdict_and, Option.some.injEq, List.all_eq_false]
  refine exists_congr fun member => and_congr_right fun _ => ?_
  rcases verdict fields valuation member with _ | _ | _ <;> simp

section

variable {fields} {valuation}

theorem verdict_or_of_undecided {member : Filter} {members : List Filter}
    (present : member ∈ members) (undecided : verdict fields valuation member = Option.none) :
    verdict fields valuation (or members) = Option.none := by
  have unknown : (members.map (verdict fields valuation)).all Option.isSome = false := by
    rw [List.all_map, List.all_eq_false]
    exact ⟨member, present, by simp [undecided]⟩
  rw [verdict]
  simp only [unknown, cond_false]

theorem verdict_or_of_decided {members : List Filter}
    (decided : ∀ member ∈ members, verdict fields valuation member ≠ Option.none) :
    verdict fields valuation (or members) =
      some (members.any fun member => (verdict fields valuation member).getD false) := by
  have known : (members.map (verdict fields valuation)).all Option.isSome = true := by
    rw [List.all_map, List.all_eq_true]
    exact fun member present => Option.isSome_iff_ne_none.mpr (decided member present)
  rw [verdict]
  simp only [known, cond_true, List.filterMap_map, List.any_filterMap]
  rfl

theorem decided_of_verdict_or {members : List Filter} {value : Bool}
    (found : verdict fields valuation (or members) = some value) :
    ∀ member ∈ members, verdict fields valuation member ≠ Option.none := by
  intro member present undecided
  rw [verdict_or_of_undecided present undecided] at found
  cases found

end

theorem verdict_or_eq_true_iff (members : List Filter) :
    verdict fields valuation (or members) = some true ↔
      (∀ member ∈ members, verdict fields valuation member ≠ Option.none) ∧
        ∃ member ∈ members, verdict fields valuation member = some true := by
  constructor
  · intro found
    have decided := decided_of_verdict_or found
    rw [verdict_or_of_decided decided, Option.some.injEq, List.any_eq_true] at found
    obtain ⟨member, present, holding⟩ := found
    refine ⟨decided, member, present, ?_⟩
    cases seen : verdict fields valuation member <;> simp_all
  · rintro ⟨decided, member, present, holding⟩
    rw [verdict_or_of_decided decided, Option.some.injEq, List.any_eq_true]
    exact ⟨member, present, by simp [holding]⟩

theorem verdict_or_eq_false_iff (members : List Filter) :
    verdict fields valuation (or members) = some false ↔
      ∀ member ∈ members, verdict fields valuation member = some false := by
  constructor
  · intro found member present
    have decided := decided_of_verdict_or found
    rw [verdict_or_of_decided decided, Option.some.injEq, List.any_eq_false] at found
    have failing := found member present
    have known := decided member present
    cases seen : verdict fields valuation member <;> simp_all
  · intro failing
    have decided : ∀ member ∈ members, verdict fields valuation member ≠ Option.none :=
      fun member present => by simp [failing member present]
    rw [verdict_or_of_decided decided, Option.some.injEq, List.any_eq_false]
    exact fun member present => by simp [failing member present]

theorem map_holds_reduce (filter : Filter) :
    (filter.reduce fields).map (holds valuation) = filter.verdict fields valuation := by
  induction filter with
  | leaf test =>
      rw [reduce, verdict_leaf]
      cases fields.decides test <;> simp
  | not child ih =>
      rw [reduce, verdict_not, ← ih, Option.map_map, Option.map_map]
      congr 1
      funext part
      exact holds_negate valuation part
  | and members ih =>
      have parts : members.filterMap (verdict fields valuation) =
          (members.filterMap (reduce fields)).map (holds valuation) := by
        rw [List.map_filterMap]
        exact List.filterMap_congr fun member present => (ih member present).symm
      rw [reduce, verdict, Option.map_some, holds_conj, parts, List.all_map]
      rfl
  | or members ih =>
      have parts : members.map (verdict fields valuation) =
          (members.map (reduce fields)).map (Option.map (holds valuation)) := by
        rw [List.map_map]
        exact List.map_congr_left fun member present => (ih member present).symm
      rw [reduce, verdict, parts]
      generalize members.map (reduce fields) = reduced
      have same : (reduced.map (Option.map (holds valuation))).all Option.isSome =
          reduced.all Option.isSome := by
        rw [List.all_map]
        congr 1
        funext part
        exact Option.isSome_map
      simp only [same]
      cases reduced.all Option.isSome with
      | false => rfl
      | true =>
          simp only [cond_true, Option.map_some, holds_disj, List.any_filterMap, List.any_map]
          congr 2
          funext part
          cases part <;> rfl
  | group child ih =>
      rw [reduce, verdict_group, ← ih, Option.map_map]
      congr 1
      funext part
      simp only [Function.comp_apply, regrouped]
      split <;> simp
  | all => simp [reduce]
  | none => simp [reduce]

/-- Reduction is uncertain just where there is no verdict, and what it leaves holds just where the
verdict is `true`. -/
theorem reduce_follows_verdict (filter : Filter) :
    (filter.reduce fields = Option.none ↔ filter.verdict fields valuation = Option.none) ∧
      ∀ value, filter.verdict fields valuation = some value ↔
        ∃ part, filter.reduce fields = some part ∧ part.holds valuation = value := by
  rw [← map_holds_reduce]
  constructor
  · exact Option.map_eq_none_iff.symm
  · intro value
    exact Option.map_eq_some_iff

theorem holds_relax (filter : Filter) :
    (filter.relax fields).holds valuation = (filter.verdict fields valuation).getD true := by
  rw [relax, ← map_holds_reduce]
  cases filter.reduce fields <;> simp

theorem reduce_eq_none_iff {filter : Filter} :
    filter.reduce fields = Option.none ↔ filter.verdict fields valuation = Option.none := by
  rw [← map_holds_reduce, Option.map_eq_none_iff]

theorem verdict_of_decides {filter : Filter}
    (decided : ∀ test ∈ filter.leaves, fields.decides test = true) :
    filter.verdict fields valuation = some (filter.holds valuation) := by
  induction filter with
  | leaf test =>
      rw [verdict_leaf, holds_leaf, decided test (by simp [leaves]), cond_true]
  | not child ih =>
      rw [leaves] at decided
      rw [verdict_not, holds_not, ih decided, Option.map_some]
  | and members ih =>
      rw [leaves, List.forall_mem_flatMap] at decided
      rw [verdict_and, holds_and]
      congr 1
      apply all_congr_of_mem
      intro member present
      rw [ih member present (decided member present), Option.getD_some]
  | or members ih =>
      rw [leaves, List.forall_mem_flatMap] at decided
      have each : ∀ member ∈ members,
          member.verdict fields valuation = some (member.holds valuation) :=
        fun member present => ih member present (decided member present)
      rw [verdict_or_of_decided fun member present => by simp [each member present], holds_or]
      congr 1
      apply any_congr_of_mem
      intro member present
      rw [each member present, Option.getD_some]
  | group child ih =>
      rw [leaves] at decided
      rw [verdict_group, holds_group, ih decided]
  | all => rw [verdict_all, holds_all]
  | none => rw [verdict_none, holds_none]

theorem verdict_congr {first second : Leaf → Bool}
    (agree : ∀ test, fields.decides test = true → first test = second test) (filter : Filter) :
    filter.verdict fields first = filter.verdict fields second := by
  induction filter with
  | leaf test =>
      rw [verdict_leaf, verdict_leaf]
      cases known : fields.decides test with
      | false => rfl
      | true => rw [agree test known]
  | not child ih => rw [verdict_not, verdict_not, ih]
  | and members ih => rw [verdict, verdict, List.filterMap_congr ih]
  | or members ih => rw [verdict, verdict, List.map_congr_left ih]
  | group child ih => rw [verdict_group, verdict_group, ih]
  | all => rw [verdict_all, verdict_all]
  | none => rw [verdict_none, verdict_none]

end ScopedFilter.Filter
