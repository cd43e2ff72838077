import Mathlib
import ScopedFilter.Proofs.Partition
import ScopedFilter.Proofs.Reduced

/-!
Tenant restrictions in a complement. The tests of tenant fields stand in the leading clauses, which
a complement takes over as they are, and nothing is negated there. Main statement:
`complement_confines_tenant`.
-/

namespace ScopedFilter.Filter

/-- The tests that stand below a negation or a disjunction. -/
def shaded : Filter → List Leaf
  | leaf _ => []
  | not child => child.leaves
  | and members => members.flatMap shaded
  | or members => members.flatMap leaves
  | group child => child.shaded
  | all => []
  | none => []

variable {fields : Fields} {filter : Filter} {members : List Filter}

section Shaded

theorem shaded_joined_and (members : List Filter) :
    (joined and all members).shaded = members.flatMap shaded := by
  rcases members with _ | ⟨first, _ | ⟨second, rest⟩⟩ <;> simp [joined, shaded]

theorem mem_leaves_of_mem_shaded {test : Leaf} (present : test ∈ filter.shaded) :
    test ∈ filter.leaves := by
  induction filter with
  | and members ih =>
      rw [shaded, List.mem_flatMap] at present
      obtain ⟨member, among, inside⟩ := present
      rw [leaves, List.mem_flatMap]
      exact ⟨member, among, ih member among inside⟩
  | group child ih =>
      rw [shaded] at present
      rw [leaves]
      exact ih present
  | not child _ => simpa [shaded, leaves] using present
  | or members _ => simpa [shaded, leaves] using present
  | leaf test => simp [shaded] at present
  | all => simp [shaded] at present
  | none => simp [shaded] at present

theorem mem_shaded_conj {test : Leaf} (present : test ∈ (conj members).shaded) :
    ∃ member ∈ members, test ∈ member.shaded := by
  unfold conj at present
  split at present
  · simp [shaded] at present
  · rw [shaded_joined_and, List.mem_flatMap] at present
    obtain ⟨member, among, inside⟩ := present
    exact ⟨member, (List.mem_filter.mp among).1, inside⟩

theorem TenantOnly.shaded_eq_nil {clause : Filter} (tenant : TenantOnly fields clause) :
    clause.shaded = [] := by
  induction tenant with
  | leaf _ => rw [shaded]
  | and _ ih =>
      rw [shaded, List.flatMap_eq_nil_iff]
      exact ih
  | group _ ih =>
      rw [shaded]
      exact ih

end Shaded

section Conjunction

theorem flatMap_leaves_filter_isAll (members : List Filter) :
    (members.filter (!·.isAll)).flatMap leaves = members.flatMap leaves := by
  induction members with
  | nil => rfl
  | cons member rest ih =>
      by_cases constant : member.isAll = true
      · rw [(isAll_iff member).mp constant]
        simpa [isAll, leaves] using ih
      · simpa [constant] using ih

theorem leaves_conj (possible : conj members ≠ none) :
    (conj members).leaves = members.flatMap leaves := by
  unfold conj at possible ⊢
  split at possible
  · exact absurd rfl possible
  · rename_i absent
    rw [if_neg absent, leaves_joined_and, flatMap_leaves_filter_isAll]

end Conjunction

section Complement

variable {complement : Filter}

theorem isTenant_of_mem_otherClauses (found : filter.complement? fields = some complement) :
    ∀ test ∈ (filter.otherClauses fields).flatMap leaves, fields.isTenant test = false := by
  intro test present
  obtain ⟨clause, among, inside⟩ := List.mem_flatMap.mp present
  have free := (complement?_eq_some_iff.mp found).1 clause among
  rw [mentionsTenant_eq, List.any_eq_false] at free
  exact Bool.eq_false_iff.mpr (free test inside)

theorem isTenant_of_mem_negated (found : filter.complement? fields = some complement) :
    ∀ test ∈ (negate (relax fields (joined and all (filter.otherClauses fields)))).leaves,
      fields.isTenant test = false := by
  intro test present
  rw [leaves_negate] at present
  exact isTenant_of_mem_otherClauses found test ((leaves_relax_joined_sublist _).subset present)

theorem tenantLeaves_complement (found : filter.complement? fields = some complement)
    (possible : complement ≠ none) :
    complement.leaves.filter fields.isTenant = filter.leaves.filter fields.isTenant := by
  have others : ((filter.otherClauses fields).flatMap leaves).filter fields.isTenant = [] := by
    rw [List.filter_eq_nil_iff]
    intro test present
    simp [isTenant_of_mem_otherClauses found test present]
  have negated : (negate (relax fields (joined and all
      (filter.otherClauses fields)))).leaves.filter fields.isTenant = [] := by
    rw [List.filter_eq_nil_iff]
    intro test present
    simp [isTenant_of_mem_negated found test present]
  have form := (complement?_eq_some_iff.mp found).2
  rw [form] at possible
  rw [form, leaves_conj possible, ← leaves_split fields filter, List.flatMap_append,
    List.flatMap_singleton, List.filter_append, List.filter_append, others, negated]

theorem isTenant_of_mem_shaded_complement (found : filter.complement? fields = some complement) :
    ∀ test ∈ complement.shaded, fields.isTenant test = false := by
  rw [(complement?_eq_some_iff.mp found).2]
  intro test present
  obtain ⟨member, among, inside⟩ := mem_shaded_conj present
  rcases List.mem_append.mp among with lead | last
  · rw [(tenantOnly_of_mem_tenantClauses lead).shaded_eq_nil] at inside
    cases inside
  · rw [List.mem_singleton.mp last] at inside
    exact isTenant_of_mem_negated found test (mem_leaves_of_mem_shaded inside)

theorem valuation_of_holds_complement (found : filter.complement? fields = some complement)
    {valuation : Leaf → Bool} (holding : complement.holds valuation = true) :
    ∀ test ∈ filter.leaves, fields.isTenant test = true → valuation test = true := by
  intro test present tenant
  rw [holds_complement valuation found, Bool.and_eq_true, List.all_eq_true] at holding
  rw [← leaves_split fields filter, List.mem_append] at present
  rcases present with lead | other
  · obtain ⟨clause, among, inside⟩ := List.mem_flatMap.mp lead
    exact (tenantOnly_of_mem_tenantClauses among).valuation_of_holds (holding.1 clause among)
      test inside
  · rw [isTenant_of_mem_otherClauses found test other] at tenant
    cases tenant

/-- A complement that is not impossible keeps every tenant test of the filter in plain sight, and
so returns only stacks that pass them all. -/
theorem complement_confines_tenant (found : filter.complement? fields = some complement) :
    (complement = none ∨
      complement.leaves.filter fields.isTenant = filter.leaves.filter fields.isTenant ∧
        ∀ test ∈ complement.shaded, fields.isTenant test = false) ∧
      ∀ valuation, complement.holds valuation = true →
        ∀ test ∈ filter.leaves, fields.isTenant test = true → valuation test = true := by
  refine ⟨?_, fun valuation => valuation_of_holds_complement found⟩
  by_cases impossible : complement = none
  · exact Or.inl impossible
  · exact Or.inr ⟨tenantLeaves_complement found impossible,
      isTenant_of_mem_shaded_complement found⟩

theorem complement_confines_tenant_organization :
    let fields : Fields := ⟨Table.standard, [("org", "organization")]⟩
    let organization := leaf (.term (some "org") "o1")
    let project := leaf (.term (some "project") "p1")
    let status := leaf (.term (some "status") "open")
    let filter := and [group (and [organization, project]), and [],
      or [status, leaf (.term (some "title") "x")]]
    let complement := and [group (and [organization, project]), and [],
      not (or [status, leaf (.term (some "title") "x")])]
    let tests : List Leaf := [.term (some "org") "o1", .term (some "project") "p1"]
    filter.complement? fields = some complement ∧
      complement.leaves.filter fields.isTenant = tests ∧
      (∀ test ∈ complement.shaded, fields.isTenant test = false) ∧
      ∀ valuation, complement.holds valuation = true → ∀ test ∈ tests, valuation test = true := by
  intro fields organization project status filter complement tests
  have found : filter.complement? fields = some complement := by cbv
  have kept : filter.leaves.filter fields.isTenant = tests := by cbv
  obtain ⟨impossible | ⟨tenants, apart⟩, holding⟩ := complement_confines_tenant found
  · simp [complement] at impossible
  · refine ⟨found, tenants.trans kept, apart, fun valuation holds test known => ?_⟩
    rw [← kept, List.mem_filter] at known
    exact holding valuation holds test known.1 known.2

end Complement

end ScopedFilter.Filter
