import Mathlib
import ScopedFilter.Filter.Occurrence
import ScopedFilter.Proofs.Misjudged

/-!
In which direction reduction departs from a filter. A conjunction that drops an uncertain member
holds too often: below an even number of negations the whole then admits too much, below an odd one
too little. Main statements: `reduce_direction`, and `relax_tight_iff` on filters that negate
nothing uncertain.
-/

namespace ScopedFilter.Filter

/-- Below `nots` negations a conjunction goes on without an uncertain member. -/
def Drops (fields : Fields) (filter : Filter) (nots : Nat) : Prop :=
  ∃ members, Occurs (and members) nots filter ∧
    ∃ member ∈ members, member.reduce fields = Option.none

variable {fields : Fields} {valuation : Leaf → Bool} {filter : Filter}

section Direction

theorem Drops.within {part : Filter} {inner outer : Nat} (drops : part.Drops fields inner)
    (occurs : Occurs part outer filter) : filter.Drops fields (inner + outer) := by
  obtain ⟨members, conjunction, uncertain⟩ := drops
  exact ⟨members, conjunction.trans occurs, uncertain⟩

theorem Misjudged.drops {truth : Bool} (misjudged : Misjudged fields valuation truth filter) :
    ∃ nots, filter.Drops fields nots ∧ (Odd nots ↔ truth = true) := by
  induction misjudged with
  | dropped present undecided _ _ =>
      have uncertain := (reduce_eq_none_iff fields valuation).mpr undecided
      exact ⟨0, ⟨_, .here, _, present, uncertain⟩, by simp⟩
  | conjunctFails present _ _ ih | conjunctHolds present _ _ ih =>
      obtain ⟨nots, drops, parity⟩ := ih
      exact ⟨nots, drops.within (.and present .here), parity⟩
  | disjunctFails present _ _ ih | disjunctHolds present _ _ ih =>
      obtain ⟨nots, drops, parity⟩ := ih
      exact ⟨nots, drops.within (.or present .here), parity⟩
  | not _ ih =>
      obtain ⟨nots, drops, parity⟩ := ih
      refine ⟨nots + 1, drops.within (.not .here), ?_⟩
      rw [Nat.odd_add_one, parity]
      simp
  | group _ ih =>
      obtain ⟨nots, drops, parity⟩ := ih
      exact ⟨nots, drops.within (.group .here), parity⟩

theorem drops_of_differs {part : Filter} (reduced : filter.reduce fields = some part)
    (differs : part.holds valuation ≠ filter.holds valuation) :
    ∃ nots, filter.Drops fields nots ∧ (Odd nots ↔ filter.holds valuation = true) := by
  have seen : filter.verdict fields valuation = some (!filter.holds valuation) := by
    rw [← map_holds_reduce, reduced, Option.map_some, Bool.eq_not_of_ne differs]
  exact (Misjudged.complete rfl seen).drops

/-- The reduced filter holds wherever the filter does unless something is dropped below an odd
number of negations, and nowhere else unless something is dropped below an even number. -/
theorem reduce_direction {part : Filter} (reduced : filter.reduce fields = some part)
    (valuation : Leaf → Bool) :
    ((∀ nots, Odd nots → ¬filter.Drops fields nots) →
        filter.holds valuation = true → part.holds valuation = true) ∧
      ((∀ nots, Even nots → ¬filter.Drops fields nots) →
        part.holds valuation = true → filter.holds valuation = true) ∧
      ((∀ nots, ¬filter.Drops fields nots) →
        part.holds valuation = filter.holds valuation) := by
  refine ⟨?_, ?_, ?_⟩
  · intro kept holding
    by_contra fails
    have differs : part.holds valuation ≠ filter.holds valuation := by rwa [holding]
    obtain ⟨nots, drops, parity⟩ := drops_of_differs reduced differs
    exact kept nots (parity.mpr holding) drops
  · intro kept holding
    by_contra fails
    have differs : part.holds valuation ≠ filter.holds valuation := by
      rw [holding]
      exact Ne.symm fails
    obtain ⟨nots, drops, parity⟩ := drops_of_differs reduced differs
    exact kept nots (Nat.not_odd_iff_even.mp (mt parity.mp fails)) drops
  · intro kept
    by_contra differs
    obtain ⟨nots, drops, _⟩ := drops_of_differs reduced differs
    exact kept nots drops

theorem reduce_direction_negated :
    let fields : Fields := ⟨Table.standard, []⟩
    let status := leaf (.term (some "status") "open")
    let filter := and [status, leaf (.term (some "type") "error")]
    let negated := not (group filter)
    filter.reduce fields = some status ∧ (∀ nots, Odd nots → ¬filter.Drops fields nots) ∧
      negated.reduce fields = some (not status) ∧
      (∀ nots, Even nots → ¬negated.Drops fields nots) ∧
      ∀ valuation, (filter.holds valuation = true → status.holds valuation = true) ∧
        ((not status).holds valuation = true → negated.holds valuation = true) := by
  intro fields status filter negated
  have reduced : filter.reduce fields = some status := by cbv
  have reducedNot : negated.reduce fields = some (not status) := by cbv
  have kept : ∀ nots, Odd nots → ¬filter.Drops fields nots := by
    rintro nots odd ⟨members, occurs, _⟩
    have top : nots = 0 := by simp_all [filter, status]
    simp [top] at odd
  have keptNot : ∀ nots, Even nots → ¬negated.Drops fields nots := by
    rintro nots even ⟨members, occurs, _⟩
    have below : nots = 1 := by simp_all [negated, filter, status]
    simp [below] at even
  refine ⟨reduced, kept, reducedNot, keptNot, fun valuation => ⟨?_, ?_⟩⟩
  · exact (reduce_direction reduced valuation).1 kept
  · exact (reduce_direction reducedNot valuation).2.1 keptNot

end Direction

section Tightness

def NegatesDecided (fields : Fields) (filter : Filter) : Prop :=
  ∀ child nots, Occurs (not child) nots filter →
    ∀ test ∈ child.leaves, fields.decides test = true

theorem NegatesDecided.of_occurs {part : Filter} {nots : Nat}
    (decided : NegatesDecided fields filter) (occurs : Occurs part nots filter) :
    NegatesDecided fields part :=
  fun child inner negation => decided child (inner + nots) (negation.trans occurs)

theorem NegatesDecided.not_drops {nots : Nat} (decided : NegatesDecided fields filter)
    (negated : 0 < nots) : ¬filter.Drops fields nots := by
  rintro ⟨members, occurs, member, present, uncertain⟩
  obtain ⟨child, inner, outer, negation, below⟩ := occurs.exists_negation negated
  have inside : Occurs member (0 + inner) child := Occurs.trans (.and present .here) below
  have known : ∀ test ∈ member.leaves, fields.decides test = true :=
    fun test among => decided child outer negation test (inside.leaves_subset among)
  rw [reduce_eq_none_iff fields fun _ => true, verdict_of_decides fields _ known] at uncertain
  cases uncertain

def hopeful (fields : Fields) (valuation : Leaf → Bool) (test : Leaf) : Bool :=
  bif fields.decides test then valuation test else true

theorem hopeful_of_decides {test : Leaf} (decided : fields.decides test = true) :
    hopeful fields valuation test = valuation test := by
  rw [hopeful, decided, cond_true]

theorem holds_hopeful (decided : NegatesDecided fields filter) :
    filter.holds (hopeful fields valuation) =
      (filter.verdict fields valuation).getD true := by
  induction filter with
  | leaf test =>
      rw [holds_leaf, verdict_leaf, hopeful]
      cases fields.decides test <;> rfl
  | not child _ =>
      have known := verdict_of_decides fields (hopeful fields valuation) (decided child 0 .here)
      rw [verdict_congr fields fun test certain => hopeful_of_decides certain] at known
      rw [verdict_not, known, holds_not]
      rfl
  | and members ih =>
      rw [holds_and, verdict_and, Option.getD_some]
      apply all_congr_of_mem
      intro member present
      exact ih member present (decided.of_occurs (.and present .here))
  | or members ih =>
      have each : ∀ member ∈ members, member.holds (hopeful fields valuation) =
          (member.verdict fields valuation).getD true :=
        fun member present => ih member present (decided.of_occurs (.or present .here))
      rw [holds_or]
      by_cases uncertain : ∃ member ∈ members, member.verdict fields valuation = Option.none
      · obtain ⟨member, present, undecided⟩ := uncertain
        rw [verdict_or_of_undecided present undecided, Option.getD_none, List.any_eq_true]
        exact ⟨member, present, by rw [each member present, undecided, Option.getD_none]⟩
      · push Not at uncertain
        rw [verdict_or_of_decided uncertain, Option.getD_some]
        apply any_congr_of_mem
        intro member present
        obtain ⟨value, found⟩ := Option.ne_none_iff_exists'.mp (uncertain member present)
        rw [each member present, found, Option.getD_some, Option.getD_some]
  | group child ih =>
      rw [holds_group, verdict_group, ih (decided.of_occurs (.group .here))]
  | all => rw [holds_all, verdict_all, Option.getD_some]
  | none => rw [holds_none, verdict_none, Option.getD_some]

/-- If nothing uncertain is negated, the relaxed filter returns a stack just where the tests of
events can come out in a way that makes the filter hold. -/
theorem relax_tight_iff (decided : NegatesDecided fields filter) (valuation : Leaf → Bool) :
    (filter.relax fields).holds valuation = true ↔
      ∃ event : Leaf → Bool, (∀ test, fields.decides test = true → event test = valuation test) ∧
        filter.holds event = true := by
  constructor
  · intro admitted
    refine ⟨hopeful fields valuation, fun test known => hopeful_of_decides known, ?_⟩
    rwa [holds_hopeful decided, ← holds_relax]
  · rintro ⟨event, agree, holding⟩
    by_contra fails
    rw [holds_relax, ← verdict_congr fields agree, ← holds_relax, Bool.not_eq_true] at fails
    obtain ⟨nots, drops, parity⟩ := (misjudged_true_iff.mpr ⟨holding, fails⟩).drops
    exact decided.not_drops (parity.mpr rfl).pos drops

theorem relax_tight_iff_regressed :
    let fields : Fields := ⟨Table.standard, []⟩
    let status (value : String) := leaf (.term (some "status") value)
    let filter := and [not (status "fixed"),
      group (or [and [leaf (.term (some "type") "error"), status "open"], status "regressed"])]
    NegatesDecided fields filter ∧ ∀ valuation,
      (filter.relax fields).holds valuation = true ↔
        ∃ event : Leaf → Bool,
          (∀ test, fields.decides test = true → event test = valuation test) ∧
            filter.holds event = true := by
  intro fields status filter
  have decided : NegatesDecided fields filter := by
    intro child nots occurs test known
    have fixed : child = status "fixed" := by simp_all [filter, status]
    rw [fixed, leaves, List.mem_singleton] at known
    rw [known]
    decide
  exact ⟨decided, relax_tight_iff decided⟩

end Tightness

end ScopedFilter.Filter
