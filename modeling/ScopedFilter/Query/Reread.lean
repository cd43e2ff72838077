import ScopedFilter.Query.Written

/-!
What a written filter is read back as. Conjunctions inside conjunctions and disjunctions inside
disjunctions come back flat, and parentheses come back as groups, also those that precedence asked
for. A word without characters comes back as a phrase, and what is spelled like the constant `all`
as that constant. All this is about the standard sentinels.
-/

namespace ScopedFilter

def Leaf.reread (test : Leaf) : Filter :=
  match test with
  | .term field value =>
      if value = "" then .leaf (.phrase field "")
      else if field = some "*" ∧ value = "*" then .all
      else .leaf test
  | _ => .leaf test

namespace Filter

def ofAlternatives (alternatives : List (List Filter)) : Filter :=
  joined or none (alternatives.map (joined and all))

def grouped (wrap : Bool) (filter : Filter) : Filter := if wrap then group filter else filter

def clausesAdded (wrap : Bool) (alternatives : List (List Filter)) : List Filter :=
  if wrap then [group (ofAlternatives alternatives)] else alternatives.flatten

/-- The written filter as it is read: a disjunction of conjunctions of clauses. -/
def alternatives : Filter → List (List Filter)
  | leaf test => [[test.reread]]
  | not child => [[not (grouped child.isJoin (ofAlternatives child.alternatives))]]
  | and members =>
      if members.isEmpty then [[all]]
      else [members.flatMap fun member => clausesAdded member.isOr member.alternatives]
  | or members => if members.isEmpty then [[not all]] else members.flatMap alternatives
  | group child => [[group (ofAlternatives child.alternatives)]]
  | all => [[all]]
  | none => [[not all]]

def reread (filter : Filter) : Filter := ofAlternatives filter.alternatives

@[simp] theorem reread_leaf (test : Leaf) : (leaf test).reread = test.reread := by
  rw [reread, alternatives]
  rfl

@[simp] theorem reread_not (child : Filter) :
    (not child).reread = not (grouped child.isJoin child.reread) := by
  rw [reread, alternatives]
  rfl

@[simp] theorem reread_group (child : Filter) : (group child).reread = group child.reread := by
  rw [reread, alternatives]
  rfl

@[simp] theorem reread_all : all.reread = all := by
  rw [reread, alternatives]
  rfl

@[simp] theorem reread_none : none.reread = not all := by
  rw [reread, alternatives]
  rfl

def deepest (depths : List Nat) : Nat := depths.foldr max 0

/-- How deep negations and parentheses lie inside one another in the written filter. The sentinel
of nothing is written with a negation. -/
def nesting : Filter → Nat
  | leaf _ => 0
  | not child => child.nesting + (if child.isJoin then 1 else 0) + 1
  | and members => deepest (members.map fun member => member.nesting + if member.isOr then 1 else 0)
  | or members => if members.isEmpty then 1 else deepest (members.map nesting)
  | group child => child.nesting + 1
  | all => 0
  | none => 1

theorem deepest_le_iff {depths : List Nat} {bound : Nat} :
    deepest depths ≤ bound ↔ ∀ depth ∈ depths, depth ≤ bound := by
  induction depths with
  | nil => simp [deepest]
  | cons depth depths ih =>
      rw [deepest, List.foldr_cons, ← deepest, Nat.max_le, ih, List.forall_mem_cons]

theorem deepest_lt_iff {depths : List Nat} {bound : Nat} (positive : 0 < bound) :
    deepest depths < bound ↔ ∀ depth ∈ depths, depth < bound := by
  obtain ⟨below, rfl⟩ : ∃ below, bound = below + 1 := ⟨bound - 1, by omega⟩
  simp only [Nat.lt_succ_iff, deepest_le_iff]

theorem le_deepest {depths : List Nat} {depth : Nat} (known : depth ∈ depths) :
    depth ≤ deepest depths := deepest_le_iff.mp (Nat.le_refl _) depth known

def nestingInAnd (filter : Filter) : Nat := filter.nesting + if filter.isOr then 1 else 0

def nestingInNot (filter : Filter) : Nat := filter.nesting + if filter.isJoin then 1 else 0

theorem nesting_le_nestingInAnd (filter : Filter) : filter.nesting ≤ filter.nestingInAnd :=
  Nat.le_add_right _ _

theorem nesting_not (child : Filter) : (not child).nesting = child.nestingInNot + 1 := by
  rw [nesting, nestingInNot]

theorem nesting_le_of_mem_and {member : Filter} {members : List Filter} (known : member ∈ members) :
    member.nestingInAnd ≤ (and members).nesting := by
  rw [nesting]
  exact le_deepest (List.mem_map_of_mem known)

theorem nesting_le_of_mem_or {member : Filter} {members : List Filter} (known : member ∈ members) :
    member.nesting ≤ (or members).nesting := by
  rw [nesting]
  cases members with
  | nil => cases known
  | cons first rest => exact le_deepest (List.mem_map_of_mem known)

@[simp] theorem isOr_mapLeaves (change : Leaf → Leaf) (filter : Filter) :
    (filter.mapLeaves change).isOr = filter.isOr := by
  cases filter <;> simp [mapLeaves, isOr]

@[simp] theorem isJoin_mapLeaves (change : Leaf → Leaf) (filter : Filter) :
    (filter.mapLeaves change).isJoin = filter.isJoin := by
  cases filter <;> simp [mapLeaves, isJoin]

@[simp] theorem nesting_mapLeaves (change : Leaf → Leaf) (filter : Filter) :
    (filter.mapLeaves change).nesting = filter.nesting := by
  induction filter with
  | not child ih => simp [mapLeaves, nesting, ih]
  | and members ih =>
      simp only [mapLeaves, nesting, List.map_map]
      congr 1
      refine List.map_congr_left fun member known => ?_
      simp [ih member known]
  | or members ih =>
      have same : members.map (nesting ∘ mapLeaves change) = members.map nesting :=
        List.map_congr_left ih
      simp only [mapLeaves, nesting, List.map_map, List.isEmpty_map, same]
  | group child ih => simp [mapLeaves, nesting, ih]
  | _ => simp [mapLeaves, nesting]

theorem isOr_eq_false_of_not_isJoin {filter : Filter} (single : filter.isJoin = false) :
    filter.isOr = false := by
  cases filter <;> first | rfl | cases single

theorem alternatives_of_not_isJoin {filter : Filter} (single : filter.isJoin = false) :
    filter.alternatives = [[filter.reread]] := by
  cases filter with
  | and members => cases single
  | or members => cases single
  | _ =>
      rw [reread, alternatives]
      rfl

theorem alternatives_of_not_isOr {filter : Filter} (single : filter.isOr = false) :
    filter.alternatives = [filter.alternatives.flatten] := by
  cases filter with
  | or members => cases single
  | and members =>
      rw [alternatives]
      split <;> simp
  | _ => simp [alternatives]

end Filter

end ScopedFilter
