import Mathlib
import ScopedFilter.Proofs.NormalForm
import ScopedFilter.Proofs.Partition

/-!
Filters that test events only. The stack store can decide nothing in them, so a constant is all that
is left of them. It should be `all`, and `none` for the complement; yet a conjunction of which every
member is dropped counts as one that holds, also below a negation. Main statement:
`eventTests_queries`; `eventTests_relax_to_none` shows a filter that comes out the wrong way round.
-/

namespace ScopedFilter.Filter

variable {fields : Fields} {valuation : Leaf → Bool} {filter : Filter}

theorem Solid.exists_leaf (solid : Solid filter) : ∃ test, test ∈ filter.leaves := by
  induction solid with
  | @leaf test => exact ⟨test, by simp [leaves]⟩
  | not _ ih => rwa [leaves]
  | @and members nonempty _ ih | @or members nonempty _ ih =>
      obtain ⟨member, present⟩ := List.exists_mem_of_ne_nil members nonempty
      obtain ⟨test, inside⟩ := ih member present
      rw [leaves]
      exact ⟨test, List.mem_flatMap.mpr ⟨member, present, inside⟩⟩
  | group _ ih => rwa [leaves]

theorem exists_conjunction_of_verdict (solid : Solid filter)
    (undecided : ∀ test ∈ filter.leaves, fields.decides test = false) {truth : Bool}
    (found : filter.verdict fields valuation = some truth) :
    ∃ members nots, Occurs (and members) nots filter ∧ (Odd nots ↔ truth = false) := by
  induction solid generalizing truth with
  | leaf =>
      rw [leaves, List.forall_mem_singleton] at undecided
      simp [undecided] at found
  | @not child _ ih =>
      rw [leaves] at undecided
      rw [verdict_not, Option.map_eq_some_iff] at found
      obtain ⟨value, inner, rfl⟩ := found
      obtain ⟨members, nots, occurs, parity⟩ := ih undecided inner
      refine ⟨members, nots + 1, .not occurs, ?_⟩
      rw [Nat.odd_add_one, parity]
      simp
  | @and members _ _ ih =>
      rw [leaves, List.forall_mem_flatMap] at undecided
      cases truth with
      | true => exact ⟨members, 0, .here, by simp⟩
      | false =>
          obtain ⟨member, present, fails⟩ := (verdict_and_eq_false_iff _ _ _).mp found
          obtain ⟨inner, nots, occurs, parity⟩ := ih member present (undecided member present) fails
          exact ⟨inner, nots, .and present occurs, parity⟩
  | @or members nonempty _ ih =>
      rw [leaves, List.forall_mem_flatMap] at undecided
      have source : ∃ member ∈ members, member.verdict fields valuation = some truth := by
        cases truth with
        | true => exact ((verdict_or_eq_true_iff _ _ _).mp found).2
        | false =>
            obtain ⟨member, present⟩ := List.exists_mem_of_ne_nil members nonempty
            exact ⟨member, present, (verdict_or_eq_false_iff _ _ _).mp found member present⟩
      obtain ⟨member, present, seen⟩ := source
      obtain ⟨inner, nots, occurs, parity⟩ := ih member present (undecided member present) seen
      exact ⟨inner, nots, .or present occurs, parity⟩
  | group _ ih =>
      rw [leaves] at undecided
      rw [verdict_group] at found
      obtain ⟨members, nots, occurs, parity⟩ := ih undecided found
      exact ⟨members, nots, .group occurs, parity⟩

theorem constant_relax (undecided : ∀ test ∈ filter.leaves, fields.decides test = false) :
    filter.relax fields = all ∨ filter.relax fields = none := by
  have form : OrConstant Normal (filter.relax fields) := normal_relax filter
  rcases form with constant | constant | normal
  · exact .inl constant
  · exact .inr constant
  · obtain ⟨test, known⟩ := normal.solid.exists_leaf
    have decided := decides_of_mem_leaves_relax filter test known
    rw [undecided test ((leaves_relax_sublist filter).subset known)] at decided
    cases decided

theorem relax_joined_clauses (undecided : ∀ test ∈ filter.leaves, fields.decides test = false) :
    (joined and all filter.clauses).relax fields = filter.relax fields := by
  have same : ((joined and all filter.clauses).relax fields).holds (fun _ => true) =
      (filter.relax fields).holds fun _ => true := by
    rw [holds_relax_joined, ← holds_relax_clauses]
  have inner : ∀ test ∈ (joined and all filter.clauses).leaves, fields.decides test = false := by
    rw [leaves_joined_and, clauses, leaves_conjuncts, leaves_ungrouped]
    exact undecided
  rcases constant_relax inner with left | left <;>
    rcases constant_relax undecided with right | right <;> simp_all

theorem isTenant_of_undecided {test : Leaf} (undecided : fields.decides test = false) :
    fields.isTenant test = false := by
  rw [Bool.eq_false_iff, ne_eq, Fields.isTenant_iff]
  intro tenant
  rw [Fields.decides_of_scope_eq_tenant tenant] at undecided
  cases undecided

theorem isTenantClause_of_undecided {clause : Filter} (canonical : Canonical clause)
    (undecided : ∀ test ∈ clause.leaves, fields.decides test = false) :
    clause.isTenantClause fields = false := by
  by_contra passes
  have tenant := isTenantClause_iff.mp (Bool.eq_true_of_not_eq_false passes)
  obtain ⟨test, known⟩ := (canonical.solid tenant.constantFree).exists_leaf
  have decided := Fields.decides_of_scope_eq_tenant (tenant.scope_of_mem_leaves test known)
  rw [undecided test known] at decided
  cases decided

theorem complement?_of_undecided (canonical : Canonical filter)
    (undecided : ∀ test ∈ filter.leaves, fields.decides test = false) :
    filter.complement? fields = some (filter.relax fields).negate := by
  have other : ∀ clause ∈ filter.clauses, clause.isTenantClause fields = false := by
    intro clause known
    apply isTenantClause_of_undecided (canonical.of_mem_clauses known)
    intro test present
    exact undecided test (mem_leaves_of_mem_clauses known present)
  have free : ∀ test ∈ filter.leaves, fields.isTenant test = false :=
    fun test known => isTenant_of_undecided (undecided test known)
  rw [complement?_of_untenanted free other, relax_joined_clauses undecided]
  rcases constant_relax undecided with constant | constant <;> rw [constant] <;> rfl

/-- The queries for a filter that only events decide: everything and, inverted, nothing, unless the
verdict is that the filter fails. It can be so only if a conjunction is negated. -/
theorem eventTests_queries {tokens : List Token} (read : Filter.ofTokens tokens = .ok filter)
    (undecided : ∀ test ∈ filter.leaves, fields.decides test = false) (free : ConstantFree filter)
    (valuation : Leaf → Bool) :
    (filter.relax fields = all ∧ filter.complement? fields = some none ↔
        filter.verdict fields valuation ≠ some false) ∧
      (filter.relax fields = none ∧ filter.complement? fields = some all ↔
        filter.verdict fields valuation = some false) ∧
      ((∀ members nots, Occurs (and members) nots filter → ¬Odd nots) →
        filter.relax fields = all ∧ filter.complement? fields = some none) := by
  have canonical := canonical_of_ofTokens read
  have value := holds_relax fields valuation filter
  have negated : filter.verdict fields valuation = some false →
      ∃ members nots, Occurs (and members) nots filter ∧ Odd nots := by
    intro fails
    obtain ⟨members, nots, occurs, parity⟩ :=
      exists_conjunction_of_verdict (canonical.solid free) undecided fails
    exact ⟨members, nots, occurs, parity.mpr rfl⟩
  rw [complement?_of_undecided canonical undecided]
  rcases constant_relax undecided with constant | constant
  · have passes : filter.verdict fields valuation ≠ some false := by
      rw [constant, holds_all] at value
      intro fails
      simp [fails] at value
    rw [constant]
    exact ⟨iff_of_true ⟨rfl, rfl⟩ passes, iff_of_false (by simp) passes, fun _ => ⟨rfl, rfl⟩⟩
  · have fails : filter.verdict fields valuation = some false := by
      rw [constant, holds_none] at value
      cases seen : filter.verdict fields valuation <;> simp_all
    obtain ⟨members, nots, occurs, odd⟩ := negated fails
    rw [constant]
    exact ⟨iff_of_false (by simp) (by simp [fails]), iff_of_true ⟨rfl, rfl⟩ fails,
      fun even => absurd odd (even members nots occurs)⟩

theorem eventTests_queries_double_negation :
    let fields : Fields := ⟨Table.standard, []⟩
    let tagged := and [leaf (.term (some "type") "error"), leaf (.term (some "tag") "x")]
    let text := "NOT (timeout OR NOT (type:error tag:x)) OR ref.session:[1 TO 5]"
    let filter := or [not (group (or [leaf (.term Option.none "timeout"), not (group tagged)])),
      leaf (.range "ref.session" "1" "5" ⟨true, true⟩)]
    Filter.parse text = .ok filter ∧ (∀ test ∈ filter.leaves, fields.decides test = false) ∧
      ConstantFree filter ∧ (∀ members nots, Occurs (and members) nots filter → ¬Odd nots) ∧
      filter.relax fields = all ∧ filter.complement? fields = some none := by
  intro fields tagged text filter
  have read : Filter.parse text = .ok filter := by cbv
  have undecided : ∀ test ∈ filter.leaves, fields.decides test = false := by
    simp only [filter, tagged, leaves, List.flatMap_cons]
    decide
  have conjunction : Solid tagged := .and (by simp) (by simp [Solid.leaf])
  have disjunction : Solid (or [leaf (.term Option.none "timeout"), not (group tagged)]) :=
    .or (by simp) (by simp [Solid.leaf, Solid.not (.group conjunction)])
  have solid : Solid filter := .or (by simp) (by simp [Solid.leaf, Solid.not (.group disjunction)])
  have even : ∀ members nots, Occurs (and members) nots filter → ¬Odd nots := by
    intro members nots occurs
    have twice : nots = 2 := by simp_all [filter, tagged]
    rw [twice]
    decide
  refine ⟨read, undecided, solid.constantFree, even, ?_⟩
  exact (eventTests_queries read undecided solid.constantFree fun _ => true).2.2 even

theorem eventTests_relax_to_none :
    let fields : Fields := ⟨Table.standard, []⟩
    let tagged := and [leaf (.term (some "type") "error"), leaf (.term (some "tag") "x")]
    let filter := not (group tagged)
    Filter.parse "NOT (type:error tag:x)" = .ok filter ∧
      (∀ test ∈ filter.leaves, fields.decides test = false) ∧ ConstantFree filter ∧
      filter.relax fields = none ∧ filter.complement? fields = some all := by
  intro fields tagged filter
  have conjunction : Solid tagged := .and (by simp) (by simp [Solid.leaf])
  have solid : Solid filter := .not (.group conjunction)
  refine ⟨by cbv, ?_, solid.constantFree, by cbv, by cbv⟩
  simp only [filter, tagged, leaves, List.flatMap_cons]
  decide

end ScopedFilter.Filter
