import ScopedFilter.Query.Reread

/-!
How high a filter is, and the paths down it. The height decides how deep a recursion over the filter
goes. The negations and groups on a path are levels of nesting in the text.
-/

namespace ScopedFilter.Filter

def children : Filter → List Filter
  | not child => [child]
  | and members => members
  | or members => members
  | group child => [child]
  | _ => []

/-- A path from a filter down, with the filter itself in front. It need not reach a leaf. -/
inductive Branch : Filter → List Filter → Prop
  | here (filter : Filter) : Branch filter [filter]
  | down {filter child : Filter} {below : List Filter} : child ∈ filter.children →
      Branch child below → Branch filter (filter :: below)

/-- A negation or a group, one of which stands on a path for each level of nesting. -/
def deepens : Filter → Bool
  | not _ => true
  | group _ => true
  | _ => false

def height : Filter → Nat
  | leaf _ => 1
  | not child => child.height + 1
  | and members => deepest (members.map height) + 1
  | or members => deepest (members.map height) + 1
  | group child => child.height + 1
  | all => 1
  | none => 1

variable {filter child : Filter} {path : List Filter}

theorem height_eq (filter : Filter) : filter.height = deepest (filter.children.map height) + 1 := by
  cases filter <;> simp [height, children, deepest]

theorem height_pos (filter : Filter) : 0 < filter.height := by
  rw [height_eq]
  exact Nat.succ_pos _

theorem height_lt_of_mem_children (below : child ∈ filter.children) :
    child.height < filter.height := by
  rw [height_eq filter]
  exact Nat.lt_succ_of_le (le_deepest (List.mem_map_of_mem below))

theorem height_le_succ_iff {bound : Nat} :
    filter.height ≤ bound + 1 ↔ ∀ child ∈ filter.children, child.height ≤ bound := by
  rw [height_eq, Nat.succ_le_succ_iff, deepest_le_iff, List.forall_mem_map]

theorem nesting_child_le (below : child ∈ filter.children) :
    child.nesting + filter.deepens.toNat ≤ filter.nesting := by
  cases filter with
  | not inner =>
      obtain rfl := List.mem_singleton.mp below
      rw [nesting, deepens, Bool.toNat_true]
      omega
  | and members => exact Nat.le_trans (nesting_le_nestingInAnd child) (nesting_le_of_mem_and below)
  | or members => exact nesting_le_of_mem_or below
  | group inner =>
      obtain rfl := List.mem_singleton.mp below
      exact Nat.le_of_eq (by simp [nesting, deepens])
  | _ => cases below

theorem Branch.countP_deepens_le (branch : Branch filter path) :
    path.countP deepens ≤ filter.nesting := by
  induction branch with
  | here filter =>
      cases filter <;> simp [List.countP_cons, deepens, nesting]
  | @down filter child below present _ ih =>
      have step := nesting_child_le present
      rw [List.countP_cons]
      cases known : filter.deepens <;> simp only [known] at step ⊢ <;> simp at step ⊢ <;> omega

end ScopedFilter.Filter
