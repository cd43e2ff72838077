import ScopedFilter.Filter.Height

/-!
Passes over a filter: recursions that visit every part, children before parents. `within` carries
one out with a limited number of calls inside one another, and the height of the filter is how many
it takes.
-/

namespace ScopedFilter

/-- What a pass makes of each form, given the children together with what it made of them. -/
structure Pass (α : Type) where
  leaf : Leaf → α
  not : Filter → α → α
  and : List (Filter × α) → α
  or : List (Filter × α) → α
  group : Filter → α → α
  all : α
  none : α

theorem mapM_eq_some_iff {α β : Type} {holds : α → Prop} {change : α → Option β}
    {result : α → β} {members : List α} {results : List β}
    (each : ∀ member value, change member = some value ↔ holds member ∧ result member = value) :
    members.mapM change = some results ↔
      (∀ member ∈ members, holds member) ∧ members.map result = results := by
  induction members generalizing results with
  | nil => simp
  | cons first rest ih =>
      rw [List.mapM_cons, List.forall_mem_cons, List.map_cons]
      constructor
      · intro found
        obtain ⟨head, atHead, found⟩ := Option.bind_eq_some_iff.mp found
        obtain ⟨tail, atTail, found⟩ := Option.bind_eq_some_iff.mp found
        obtain ⟨passes, rfl⟩ := (each _ _).mp atHead
        obtain ⟨others, rfl⟩ := ih.mp atTail
        exact ⟨⟨passes, others⟩, Option.some.inj found⟩
      · rintro ⟨⟨passes, others⟩, rfl⟩
        rw [(each _ _).mpr ⟨passes, rfl⟩, ih.mpr ⟨others, rfl⟩]
        rfl

namespace Pass

variable {α : Type}

def value (pass : Pass α) : Filter → α
  | .leaf test => pass.leaf test
  | .not child => pass.not child (pass.value child)
  | .and members => pass.and (members.map fun member => (member, pass.value member))
  | .or members => pass.or (members.map fun member => (member, pass.value member))
  | .group child => pass.group child (pass.value child)
  | .all => pass.all
  | .none => pass.none

structure Describes (pass : Pass α) (result : Filter → α) : Prop where
  leaf : ∀ test, result (.leaf test) = pass.leaf test
  not : ∀ child, result (.not child) = pass.not child (result child)
  and : ∀ members,
    result (.and members) = pass.and (members.map fun member => (member, result member))
  or : ∀ members,
    result (.or members) = pass.or (members.map fun member => (member, result member))
  group : ∀ child, result (.group child) = pass.group child (result child)
  all : result .all = pass.all
  none : result .none = pass.none

theorem Describes.value_eq {pass : Pass α} {result : Filter → α} (describes : pass.Describes result)
    (filter : Filter) : pass.value filter = result filter := by
  have pairs {members : List Filter}
      (each : ∀ member ∈ members, pass.value member = result member) :
      (members.map fun member => (member, pass.value member)) =
        members.map fun member => (member, result member) :=
    List.map_congr_left fun member known => by rw [each member known]
  induction filter with
  | leaf test => rw [value, describes.leaf]
  | not child ih => rw [value, ih, describes.not]
  | and members ih => rw [value, pairs ih, describes.and]
  | or members ih => rw [value, pairs ih, describes.or]
  | group child ih => rw [value, ih, describes.group]
  | all => rw [value, describes.all]
  | none => rw [value, describes.none]

/-- The value of a filter, or nothing if it takes more than `frames` calls inside one another. -/
def within (pass : Pass α) : Nat → Filter → Option α
  | 0, _ => Option.none
  | _ + 1, .leaf test => some (pass.leaf test)
  | frames + 1, .not child => (pass.within frames child).map (pass.not child)
  | frames + 1, .and members =>
      (members.mapM fun member => (pass.within frames member).map (member, ·)).map pass.and
  | frames + 1, .or members =>
      (members.mapM fun member => (pass.within frames member).map (member, ·)).map pass.or
  | frames + 1, .group child => (pass.within frames child).map (pass.group child)
  | _ + 1, .all => some pass.all
  | _ + 1, .none => some pass.none

theorem within_eq_some_iff {pass : Pass α} {frames : Nat} {filter : Filter} {result : α} :
    pass.within frames filter = some result ↔
      filter.height ≤ frames ∧ pass.value filter = result := by
  induction frames generalizing filter result with
  | zero => simp [within, Nat.not_le_of_lt filter.height_pos]
  | succ frames ih =>
      have paired (member : Filter) (value : Filter × α) :
          (pass.within frames member).map (member, ·) = some value ↔
            member.height ≤ frames ∧ (member, pass.value member) = value := by
        simp only [Option.map_eq_some_iff, ih]
        constructor
        · rintro ⟨_, ⟨low, rfl⟩, rfl⟩
          exact ⟨low, rfl⟩
        · rintro ⟨low, rfl⟩
          exact ⟨_, ⟨low, rfl⟩, rfl⟩
      rw [Filter.height_le_succ_iff]
      cases filter with
      | not child | group child =>
          simp [within, value, Option.map_eq_some_iff, ih, Filter.children, and_assoc]
      | and members | or members =>
          simp [within, value, Option.map_eq_some_iff, mapM_eq_some_iff paired, Filter.children,
            and_assoc]
      | _ => simp [within, value, Filter.children]

theorem Describes.within_eq {pass : Pass α} {result : Filter → α}
    (describes : pass.Describes result) {frames : Nat} {filter : Filter}
    (low : filter.height ≤ frames) :
    pass.within frames filter = some (result filter) :=
  within_eq_some_iff.mpr ⟨low, describes.value_eq filter⟩

end Pass

end ScopedFilter
