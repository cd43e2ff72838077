/-!
Filters over named fields. A leaf tests one field; a filter joins leaves by negation, conjunction,
disjunction and written parentheses, and there are two constants. The simplifying constructors
`conj`, `disj` and `negate` absorb the constants; `joined` keeps a single member as it is.
-/

namespace ScopedFilter

structure Inclusivity where
  low : Bool
  high : Bool
deriving DecidableEq, Repr

namespace Inclusivity

def both : Inclusivity := ⟨true, true⟩

def neither : Inclusivity := ⟨false, false⟩

end Inclusivity

/-- A test of one field. Terms and phrases may leave the field to the reader's default. -/
inductive Leaf where
  | term (field : Option String) (value : String)
  | phrase (field : Option String) (text : String)
  | range (field low high : String) (inclusive : Inclusivity)
deriving DecidableEq, Repr

namespace Leaf

def field? : Leaf → Option String
  | term field _ => field
  | phrase field _ => field
  | range field _ _ _ => some field

def withField (field : String) : Leaf → Leaf
  | term _ value => term (some field) value
  | phrase _ text => phrase (some field) text
  | range _ low high inclusive => range field low high inclusive

@[simp] theorem field?_withField (field : String) (leaf : Leaf) :
    (leaf.withField field).field? = some field := by
  cases leaf <;> rfl

@[simp] theorem withField_withField (first second : String) (leaf : Leaf) :
    (leaf.withField first).withField second = leaf.withField second := by
  cases leaf <;> rfl

theorem withField_of_field? {field : String} {leaf : Leaf} (named : leaf.field? = some field) :
    leaf.withField field = leaf := by
  cases leaf <;> simp_all [field?, withField]

end Leaf

inductive Filter where
  | leaf (leaf : Leaf)
  | not (child : Filter)
  | and (members : List Filter)
  | or (members : List Filter)
  | group (child : Filter)
  | all
  | none
deriving Repr

namespace Filter

/-- Induction that hands every member of a conjunction or disjunction its hypothesis. -/
@[elab_as_elim, induction_eliminator]
theorem induction {motive : Filter → Prop}
    (leaf : ∀ leaf, motive (.leaf leaf))
    (not : ∀ child, motive child → motive (.not child))
    (and : ∀ members, (∀ member ∈ members, motive member) → motive (.and members))
    (or : ∀ members, (∀ member ∈ members, motive member) → motive (.or members))
    (group : ∀ child, motive child → motive (.group child))
    (all : motive .all) (none : motive .none) : ∀ filter, motive filter
  | .leaf test => leaf test
  | .not child => not child (induction leaf not and or group all none child)
  | .and members => and members fun member _ => induction leaf not and or group all none member
  | .or members => or members fun member _ => induction leaf not and or group all none member
  | .group child => group child (induction leaf not and or group all none child)
  | .all => all
  | .none => none

mutual

def same : Filter → Filter → Bool
  | leaf left, leaf right => left = right
  | not left, not right => same left right
  | and left, and right => sameMembers left right
  | or left, or right => sameMembers left right
  | group left, group right => same left right
  | all, all => true
  | none, none => true
  | _, _ => false

def sameMembers : List Filter → List Filter → Bool
  | [], [] => true
  | left :: lefts, right :: rights => same left right && sameMembers lefts rights
  | _, _ => false

end

theorem sameMembers_iff (lefts : List Filter)
    (same_iff : ∀ left ∈ lefts, ∀ right, same left right = true ↔ left = right) :
    ∀ rights, sameMembers lefts rights = true ↔ lefts = rights := by
  induction lefts with
  | nil => intro rights; cases rights <;> simp [sameMembers]
  | cons left lefts ih =>
      intro rights
      cases rights with
      | nil => simp [sameMembers]
      | cons right rights =>
          simp only [sameMembers, Bool.and_eq_true, List.cons.injEq]
          rw [same_iff left (by simp), ih fun member known => same_iff member (by simp [known])]

theorem same_iff (left right : Filter) : same left right = true ↔ left = right := by
  induction left generalizing right with
  | leaf test => cases right <;> simp [same]
  | not child ih => cases right <;> simp [same, ih]
  | and members ih => cases right <;> simp [same, sameMembers_iff members ih]
  | or members ih => cases right <;> simp [same, sameMembers_iff members ih]
  | group child ih => cases right <;> simp [same, ih]
  | all => cases right <;> simp [same]
  | none => cases right <;> simp [same]

instance : DecidableEq Filter := fun left right =>
  decidable_of_iff (same left right = true) (same_iff left right)

/-- Joins members by `join`: one member stands for itself, no member for `empty`. -/
def joined (join : List Filter → Filter) (empty : Filter) : List Filter → Filter
  | [] => empty
  | [member] => member
  | members => join members

def isAll : Filter → Bool
  | all => true
  | _ => false

def isNone : Filter → Bool
  | none => true
  | _ => false

theorem isAll_iff (filter : Filter) : filter.isAll = true ↔ filter = all := by
  cases filter <;> simp [isAll]

theorem isNone_iff (filter : Filter) : filter.isNone = true ↔ filter = none := by
  cases filter <;> simp [isNone]

/-- The conjunction without the constants: `all` is dropped and `none` takes over. -/
def conj (members : List Filter) : Filter :=
  if members.any isNone then none else joined and all (members.filter (!·.isAll))

def disj (members : List Filter) : Filter :=
  if members.any isAll then all else joined or none (members.filter (!·.isNone))

/-- The negation without a double negation: the constants change places. -/
def negate : Filter → Filter
  | all => none
  | none => all
  | not child => child
  | filter => not filter

def leaves : Filter → List Leaf
  | leaf test => [test]
  | not child => child.leaves
  | and members => members.flatMap leaves
  | or members => members.flatMap leaves
  | group child => child.leaves
  | all => []
  | none => []

def mapLeaves (change : Leaf → Leaf) : Filter → Filter
  | leaf test => leaf (change test)
  | not child => not (child.mapLeaves change)
  | and members => and (members.map (mapLeaves change))
  | or members => or (members.map (mapLeaves change))
  | group child => group (child.mapLeaves change)
  | all => all
  | none => none

def field? : Filter → Option String
  | leaf test => test.field?
  | _ => Option.none

def withField (field : String) : Filter → Filter
  | leaf test => leaf (test.withField field)
  | filter => filter

def search (passes : Leaf → Bool) (filter : Filter) : Option Leaf × List Leaf :=
  let found := filter.leaves.find? passes
  (found, filter.leaves.takeWhile (!passes ·) ++ found.toList)

theorem isSome_search (passes : Leaf → Bool) (filter : Filter) :
    (filter.search passes).1.isSome = filter.leaves.any passes := by
  rw [Bool.eq_iff_iff, search, List.find?_isSome, List.any_eq_true]

def ungrouped : Filter → Filter
  | group child => child.ungrouped
  | filter => filter

/-- The members of a conjunction, or the filter as the only one. -/
def conjuncts : Filter → List Filter
  | and members => members
  | filter => [filter]

def disjuncts : Filter → List Filter
  | or members => members
  | filter => [filter]

theorem leaves_joined_and (members : List Filter) :
    (joined and all members).leaves = members.flatMap leaves := by
  rcases members with _ | ⟨first, _ | ⟨second, rest⟩⟩ <;> simp [joined, leaves]

theorem leaves_joined_or (members : List Filter) :
    (joined or none members).leaves = members.flatMap leaves := by
  rcases members with _ | ⟨first, _ | ⟨second, rest⟩⟩ <;> simp [joined, leaves]

theorem leaves_mapLeaves (change : Leaf → Leaf) (filter : Filter) :
    (filter.mapLeaves change).leaves = filter.leaves.map change := by
  induction filter with
  | leaf test => simp [mapLeaves, leaves]
  | not child ih => simp [mapLeaves, leaves, ih]
  | and members ih =>
      simp only [mapLeaves, leaves, List.flatMap_map, List.map_flatMap]
      rw [List.flatMap_def, List.flatMap_def, List.map_congr_left ih]
  | or members ih =>
      simp only [mapLeaves, leaves, List.flatMap_map, List.map_flatMap]
      rw [List.flatMap_def, List.flatMap_def, List.map_congr_left ih]
  | group child ih => simp [mapLeaves, leaves, ih]
  | all => simp [mapLeaves, leaves]
  | none => simp [mapLeaves, leaves]

theorem leaves_ungrouped (filter : Filter) : filter.ungrouped.leaves = filter.leaves := by
  induction filter with
  | group child ih => rw [ungrouped, ih, leaves]
  | _ => rfl

theorem leaves_conjuncts (filter : Filter) :
    filter.conjuncts.flatMap leaves = filter.leaves := by
  cases filter <;> simp [conjuncts, leaves]

end Filter

end ScopedFilter
