import ScopedFilter.Filter.Pass
import ScopedFilter.Query.Written
import ScopedFilter.Stack.Rewriting

/-!
The recursions over a filter between its reading and the query for the stack store, as passes.
-/

namespace ScopedFilter

open ScopedFilter.Filter

namespace Pass

def reduce (fields : Fields) : Pass (Option Filter) where
  leaf test := bif fields.decides test then some (.leaf test) else Option.none
  not _ part := part.map negate
  and members := some (conj (members.filterMap Prod.snd))
  or members :=
    bif members.all (·.2.isSome) then some (disj (members.filterMap Prod.snd)) else Option.none
  group _ part := part.map regrouped
  all := some .all
  none := some .none

def mapLeaves (change : Leaf → Leaf) : Pass Filter where
  leaf test := .leaf (change test)
  not _ child := .not child
  and members := .and (members.map Prod.snd)
  or members := .or (members.map Prod.snd)
  group _ child := .group child
  all := .all
  none := .none

def isTenantClause (fields : Fields) : Pass Bool where
  leaf test := fields.isTenant test
  not _ _ := false
  and members := members.all Prod.snd
  or _ := false
  group _ child := child
  all := false
  none := false

def anyLeaf (passes : Leaf → Bool) : Pass Bool where
  leaf test := passes test
  not _ child := child
  and members := members.any Prod.snd
  or members := members.any Prod.snd
  group _ child := child
  all := false
  none := false

def written (sentinels : Sentinels) : Pass (List Char) where
  leaf test := test.written
  not child text := "NOT ".toList ++ enclosed child.isJoin text
  and members :=
    if members.isEmpty then sentinels.all.toList
    else " AND ".toList.intercalate (members.map fun member => enclosed member.1.isOr member.2)
  or members :=
    if members.isEmpty then sentinels.none.toList
    else " OR ".toList.intercalate (members.map Prod.snd)
  group _ text := enclosed true text
  all := sentinels.all.toList
  none := sentinels.none.toList

theorem describes_reduce (fields : Fields) : (reduce fields).Describes (Filter.reduce fields) where
  leaf _ := by rw [Filter.reduce]; rfl
  not _ := by rw [Filter.reduce]; rfl
  and _ := by
    simp only [Filter.reduce, reduce, List.filterMap_map]
    rfl
  or _ := by simp [Filter.reduce, reduce, List.filterMap_map, List.all_map, Function.comp_def]
  group _ := by rw [Filter.reduce]; rfl
  all := by rw [Filter.reduce]; rfl
  none := by rw [Filter.reduce]; rfl

theorem describes_mapLeaves (change : Leaf → Leaf) :
    (mapLeaves change).Describes (Filter.mapLeaves change) where
  leaf _ := by rw [Filter.mapLeaves]; rfl
  not _ := by rw [Filter.mapLeaves]; rfl
  and _ := by simp [Filter.mapLeaves, mapLeaves, Function.comp_def]
  or _ := by simp [Filter.mapLeaves, mapLeaves, Function.comp_def]
  group _ := by rw [Filter.mapLeaves]; rfl
  all := by rw [Filter.mapLeaves]; rfl
  none := by rw [Filter.mapLeaves]; rfl

theorem describes_isTenantClause (fields : Fields) :
    (isTenantClause fields).Describes (Filter.isTenantClause fields) where
  leaf _ := by simp [Filter.isTenantClause, isTenantClause]
  not _ := by simp [Filter.isTenantClause, isTenantClause]
  and _ := by simp [Filter.isTenantClause, isTenantClause, List.all_map, Function.comp_def]
  or _ := by simp [Filter.isTenantClause, isTenantClause]
  group _ := by simp [Filter.isTenantClause, isTenantClause]
  all := by simp [Filter.isTenantClause, isTenantClause]
  none := by simp [Filter.isTenantClause, isTenantClause]

theorem describes_anyLeaf (passes : Leaf → Bool) :
    (anyLeaf passes).Describes fun filter => filter.leaves.any passes where
  leaf _ := by simp [leaves, anyLeaf]
  not _ := by rw [leaves]; rfl
  and _ := by simp [leaves, anyLeaf, List.any_flatMap, List.any_map, Function.comp_def]
  or _ := by simp [leaves, anyLeaf, List.any_flatMap, List.any_map, Function.comp_def]
  group _ := by rw [leaves]; rfl
  all := by rw [leaves]; rfl
  none := by rw [leaves]; rfl

theorem describes_written (sentinels : Sentinels) :
    (written sentinels).Describes (Filter.written sentinels) where
  leaf _ := by rw [Filter.written]; rfl
  not _ := by rw [Filter.written]; rfl
  and _ := by simp [Filter.written, written, Function.comp_def]
  or _ := by simp [Filter.written, written, Function.comp_def]
  group _ := by rw [Filter.written]; rfl
  all := by rw [Filter.written]; rfl
  none := by rw [Filter.written]; rfl

end Pass

/-- No pass over the filter takes more than `frames` calls inside one another. -/
structure Filter.RunsWithin (frames : Nat) (filter : Filter) : Prop where
  reduce : ∀ fields, (Pass.reduce fields).within frames filter = some (filter.reduce fields)
  inStore : ∀ fields : Fields,
    (Pass.mapLeaves fields.storeLeaf).within frames filter = some (filter.inStore fields)
  isTenantClause : ∀ fields,
    (Pass.isTenantClause fields).within frames filter = some (filter.isTenantClause fields)
  anyLeaf : ∀ passes, (Pass.anyLeaf passes).within frames filter = some (filter.leaves.any passes)
  written : ∀ sentinels,
    (Pass.written sentinels).within frames filter = some (filter.written sentinels)

theorem Filter.runsWithin_iff {frames : Nat} {filter : Filter} :
    filter.RunsWithin frames ↔ filter.height ≤ frames := by
  constructor
  · intro runs
    exact (Pass.within_eq_some_iff.mp (runs.written Sentinels.standard)).1
  · intro low
    exact ⟨fun fields => (Pass.describes_reduce fields).within_eq low,
      fun fields => (Pass.describes_mapLeaves _).within_eq low,
      fun fields => (Pass.describes_isTenantClause fields).within_eq low,
      fun passes => (Pass.describes_anyLeaf passes).within_eq low,
      fun sentinels => (Pass.describes_written sentinels).within_eq low⟩

end ScopedFilter
