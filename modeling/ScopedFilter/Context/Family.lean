import ScopedFilter.Stack.Answer

/-!
Families of contexts that share one set of aliases. The aliases come from a source that is asked
when they are first needed. What it gives is kept for good; after a failure it is asked again the
next time.
-/

namespace ScopedFilter

/-- How a source answers, given how often it was asked before. -/
abbrev Source := Nat → Except Failure Aliases

def Source.ofList (answers : List (Except Failure Aliases)) : Source := fun asked =>
  (answers[asked]?.or answers.getLast?).getD (.ok [])

structure Family where
  source? : Option Source := none
  calls : Nat := 0
  published? : Option Aliases := none

namespace Family

def ofAliases (aliases : Aliases) : Family := { published? := some aliases }

def ofSource (source : Source) : Family := { source? := some source }

/-- Has the aliases at hand from now on, unless the source fails. -/
def prepare (family : Family) : Except Failure Aliases × Family :=
  match family.published?, family.source? with
  | some aliases, _ => (.ok aliases, family)
  | none, none => (.ok [], { family with published? := some [] })
  | none, some source =>
      let asked := { family with calls := family.calls + 1 }
      match source family.calls with
      | .ok aliases => (.ok aliases, { asked with published? := some aliases })
      | .error failure => (.error failure, asked)

def Refuses (family : Family) (failure : Failure) : Prop :=
  family.published? = none ∧
    ∃ source, family.source? = some source ∧ source family.calls = .error failure

section Prepare

variable {family : Family}

theorem prepare_of_published {aliases : Aliases} (published : family.published? = some aliases) :
    family.prepare = (.ok aliases, family) := by
  rw [prepare, published]

theorem prepare_of_unattached (empty : family.published? = none) (alone : family.source? = none) :
    family.prepare = (.ok [], { family with published? := some [] }) := by
  rw [prepare, empty, alone]

theorem prepare_of_attached {source : Source} (empty : family.published? = none)
    (attached : family.source? = some source) :
    family.prepare = (source family.calls, { family with
      calls := family.calls + 1, published? := (source family.calls).toOption }) := by
  rw [prepare, empty, attached]
  cases answer : source family.calls with
  | ok aliases => simp [answer, Except.toOption]
  | error failure => simp [answer, Except.toOption]

theorem prepare_cases (family : Family) :
    (∃ aliases, family.published? = some aliases ∧ family.prepare = (.ok aliases, family)) ∨
      family.published? = none ∧
        (family.source? = none ∧ family.prepare = (.ok [], { family with published? := some [] }) ∨
          ∃ source, family.source? = some source ∧
            family.prepare = (source family.calls, { family with
              calls := family.calls + 1, published? := (source family.calls).toOption })) := by
  rcases Option.eq_none_or_eq_some family.published? with empty | ⟨aliases, published⟩
  · rcases Option.eq_none_or_eq_some family.source? with alone | ⟨source, attached⟩
    · exact .inr ⟨empty, .inl ⟨alone, prepare_of_unattached empty alone⟩⟩
    · exact .inr ⟨empty, .inr ⟨source, attached, prepare_of_attached empty attached⟩⟩
  · exact .inl ⟨aliases, published, prepare_of_published published⟩

@[simp] theorem source?_prepare (family : Family) :
    family.prepare.2.source? = family.source? := by
  obtain ⟨_, _, prepared⟩ | ⟨_, ⟨_, prepared⟩ | ⟨_, _, prepared⟩⟩ := family.prepare_cases <;>
    rw [prepared]

theorem published?_prepare (family : Family) :
    family.prepare.2.published? = family.prepare.1.toOption := by
  obtain ⟨_, published, prepared⟩ | ⟨_, ⟨_, prepared⟩ | ⟨_, _, prepared⟩⟩ := family.prepare_cases
  · rw [prepared]
    exact published
  · rw [prepared]
    rfl
  · rw [prepared]

theorem calls_prepare {source : Source} (attached : family.source? = some source) :
    family.prepare.2.calls = family.calls + if family.published? = none then 1 else 0 := by
  obtain ⟨_, published, prepared⟩ | ⟨empty, ⟨alone, _⟩ | ⟨_, _, prepared⟩⟩ := family.prepare_cases
  · simp [prepared, published]
  · simp [alone] at attached
  · simp [prepared, empty]

theorem prepare_eq_error_iff {failure : Failure} :
    family.prepare.1 = .error failure ↔ family.Refuses failure := by
  obtain ⟨_, published, prepared⟩ | ⟨empty, ⟨alone, prepared⟩ | ⟨source, attached, prepared⟩⟩ :=
    family.prepare_cases
  · simp [Refuses, prepared, published]
  · simp [Refuses, prepared, alone]
  · simp [Refuses, prepared, empty, attached]

end Prepare

end Family

end ScopedFilter
