import ScopedFilter.Filter.Basic

/-!
The meaning of a filter under a valuation of its leaves: conjunctions ask for all members,
disjunctions for one, and written parentheses mean nothing. The simplifying constructors keep the
meaning, and only the leaves that occur matter.
-/

namespace ScopedFilter.Filter

def holds (valuation : Leaf → Bool) : Filter → Bool
  | leaf test => valuation test
  | not child => !child.holds valuation
  | and members => (members.map (holds valuation)).all id
  | or members => (members.map (holds valuation)).any id
  | group child => child.holds valuation
  | all => true
  | none => false

variable (valuation : Leaf → Bool)

@[simp] theorem holds_leaf (test : Leaf) : holds valuation (leaf test) = valuation test := by
  rw [holds]

@[simp] theorem holds_not (child : Filter) :
    holds valuation (not child) = !holds valuation child := by
  rw [holds]

@[simp] theorem holds_and (members : List Filter) :
    holds valuation (and members) = members.all (holds valuation) := by
  rw [holds, List.all_map]; rfl

@[simp] theorem holds_or (members : List Filter) :
    holds valuation (or members) = members.any (holds valuation) := by
  rw [holds, List.any_map]; rfl

@[simp] theorem holds_group (child : Filter) :
    holds valuation (group child) = holds valuation child := by
  rw [holds]

@[simp] theorem holds_all : holds valuation all = true := by
  rw [holds]

@[simp] theorem holds_none : holds valuation none = false := by
  rw [holds]

theorem all_congr_of_mem {first second : Filter → Bool} {members : List Filter}
    (agree : ∀ member ∈ members, first member = second member) :
    members.all first = members.all second := by
  rw [Bool.eq_iff_iff, List.all_eq_true, List.all_eq_true]
  exact forall₂_congr fun member present => by rw [agree member present]

theorem any_congr_of_mem {first second : Filter → Bool} {members : List Filter}
    (agree : ∀ member ∈ members, first member = second member) :
    members.any first = members.any second := by
  rw [Bool.eq_iff_iff, List.any_eq_true, List.any_eq_true]
  exact exists_congr fun member => and_congr_right fun present => by rw [agree member present]

theorem holds_joined_and (members : List Filter) :
    holds valuation (joined and all members) = members.all (holds valuation) := by
  rcases members with _ | ⟨first, _ | ⟨second, rest⟩⟩ <;> simp [joined]

theorem holds_joined_or (members : List Filter) :
    holds valuation (joined or none members) = members.any (holds valuation) := by
  rcases members with _ | ⟨first, _ | ⟨second, rest⟩⟩ <;> simp [joined]

theorem holds_conj (members : List Filter) :
    holds valuation (conj members) = members.all (holds valuation) := by
  unfold conj
  split
  · rename_i present
    obtain ⟨member, known, constant⟩ := List.any_eq_true.mp present
    rw [holds_none, eq_comm, List.all_eq_false]
    exact ⟨member, known, by simp [(isNone_iff member).mp constant]⟩
  · rw [holds_joined_and, List.all_filter]
    congr 1
    funext member
    cases member <;> simp [isAll]

theorem holds_disj (members : List Filter) :
    holds valuation (disj members) = members.any (holds valuation) := by
  unfold disj
  split
  · rename_i present
    obtain ⟨member, known, constant⟩ := List.any_eq_true.mp present
    rw [holds_all, eq_comm, List.any_eq_true]
    exact ⟨member, known, by simp [(isAll_iff member).mp constant]⟩
  · rw [holds_joined_or, List.any_filter]
    congr 1
    funext member
    cases member <;> simp [isNone]

theorem holds_negate (filter : Filter) :
    holds valuation (negate filter) = !holds valuation filter := by
  cases filter <;> simp [negate]

theorem holds_ungrouped (filter : Filter) :
    holds valuation filter.ungrouped = holds valuation filter := by
  induction filter <;> simp_all [ungrouped]

theorem holds_conjuncts (filter : Filter) :
    filter.conjuncts.all (holds valuation) = holds valuation filter := by
  cases filter <;> simp [conjuncts]

end ScopedFilter.Filter
