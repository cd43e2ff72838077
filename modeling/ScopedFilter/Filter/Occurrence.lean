import ScopedFilter.Filter.Basic

/-!
Where a part stands in a filter, and below how many negations. Negations turn an approximation
round, so that number decides whether a part says too much or too little for the whole.
-/

namespace ScopedFilter.Filter

/-- `part` stands in the filter, below `nots` negations. -/
inductive Occurs (part : Filter) : Nat → Filter → Prop
  | here : Occurs part 0 part
  | not {nots child} : Occurs part nots child → Occurs part (nots + 1) (not child)
  | and {nots member members} : member ∈ members → Occurs part nots member →
      Occurs part nots (and members)
  | or {nots member members} : member ∈ members → Occurs part nots member →
      Occurs part nots (or members)
  | group {nots child} : Occurs part nots child → Occurs part nots (group child)

namespace Occurs

variable {part middle whole : Filter} {nots inner outer : Nat}

theorem trans (lower : Occurs part inner middle) (upper : Occurs middle outer whole) :
    Occurs part (inner + outer) whole := by
  induction upper with
  | here => exact lower
  | not _ ih => exact .not ih
  | and present _ ih => exact .and present ih
  | or present _ ih => exact .or present ih
  | group _ ih => exact .group ih

theorem leaves_subset (occurs : Occurs part nots whole) : part.leaves ⊆ whole.leaves := by
  intro test known
  induction occurs with
  | here => exact known
  | not _ ih => rwa [leaves]
  | and present _ ih | or present _ ih =>
      rw [leaves, List.mem_flatMap]
      exact ⟨_, present, ih⟩
  | group _ ih => rwa [leaves]

theorem exists_negation (negated : 0 < nots) (occurs : Occurs part nots whole) :
    ∃ child inner outer, Occurs (.not child) outer whole ∧ Occurs part inner child := by
  induction occurs with
  | here => exact absurd negated (Nat.lt_irrefl 0)
  | not below _ => exact ⟨_, _, 0, .here, below⟩
  | and present _ ih =>
      obtain ⟨child, inner, outer, negation, below⟩ := ih negated
      exact ⟨child, inner, outer, .and present negation, below⟩
  | or present _ ih =>
      obtain ⟨child, inner, outer, negation, below⟩ := ih negated
      exact ⟨child, inner, outer, .or present negation, below⟩
  | group _ ih =>
      obtain ⟨child, inner, outer, negation, below⟩ := ih negated
      exact ⟨child, inner, outer, .group negation, below⟩

end Occurs

section Places

variable {part child : Filter} {members : List Filter} {nots : Nat}

@[simp] theorem occurs_leaf_iff {test : Leaf} :
    Occurs part nots (leaf test) ↔ part = leaf test ∧ nots = 0 := by
  constructor
  · intro occurs
    cases occurs
    exact ⟨rfl, rfl⟩
  · rintro ⟨rfl, rfl⟩
    exact .here

@[simp] theorem occurs_not_iff :
    Occurs part nots (not child) ↔
      part = not child ∧ nots = 0 ∨ ∃ inner, nots = inner + 1 ∧ Occurs part inner child := by
  constructor
  · intro occurs
    cases occurs with
    | here => exact .inl ⟨rfl, rfl⟩
    | not below => exact .inr ⟨_, rfl, below⟩
  · rintro (⟨rfl, rfl⟩ | ⟨inner, rfl, below⟩)
    · exact .here
    · exact .not below

@[simp] theorem occurs_and_iff :
    Occurs part nots (and members) ↔
      part = and members ∧ nots = 0 ∨ ∃ member ∈ members, Occurs part nots member := by
  constructor
  · intro occurs
    cases occurs with
    | here => exact .inl ⟨rfl, rfl⟩
    | and present below => exact .inr ⟨_, present, below⟩
  · rintro (⟨rfl, rfl⟩ | ⟨member, present, below⟩)
    · exact .here
    · exact .and present below

@[simp] theorem occurs_or_iff :
    Occurs part nots (or members) ↔
      part = or members ∧ nots = 0 ∨ ∃ member ∈ members, Occurs part nots member := by
  constructor
  · intro occurs
    cases occurs with
    | here => exact .inl ⟨rfl, rfl⟩
    | or present below => exact .inr ⟨_, present, below⟩
  · rintro (⟨rfl, rfl⟩ | ⟨member, present, below⟩)
    · exact .here
    · exact .or present below

@[simp] theorem occurs_group_iff :
    Occurs part nots (group child) ↔ part = group child ∧ nots = 0 ∨ Occurs part nots child := by
  constructor
  · intro occurs
    cases occurs with
    | here => exact .inl ⟨rfl, rfl⟩
    | group below => exact .inr below
  · rintro (⟨rfl, rfl⟩ | below)
    · exact .here
    · exact .group below

end Places

def ConstantFree (filter : Filter) : Prop :=
  ∀ part nots, Occurs part nots filter → part ≠ all ∧ part ≠ none

theorem ConstantFree.of_occurs {part whole : Filter} {nots : Nat} (free : ConstantFree whole)
    (occurs : Occurs part nots whole) : ConstantFree part :=
  fun inner deeper within => free inner (deeper + nots) (within.trans occurs)

end ScopedFilter.Filter
