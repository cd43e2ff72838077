import ScopedFilter.Proofs.Verdict
import ScopedFilter.Stack.Rewriting

/-!
Clauses that restrict the tenant and do nothing else. The stack store decides every test in them, so
relaxing one keeps its meaning; `isTenantClause_iff` ties the check to the description.
-/

namespace ScopedFilter

theorem Fields.isTenant_iff {fields : Fields} {test : Leaf} :
    fields.isTenant test = true ↔ fields.scope test.field? = .tenant := by
  rw [Fields.isTenant]
  cases fields.scope test.field? <;> simp [Scope.isTenant]

theorem Fields.decides_of_scope_eq_tenant {fields : Fields} {test : Leaf}
    (tenant : fields.scope test.field? = .tenant) : fields.decides test = true := by
  rw [Fields.decides, tenant]
  rfl

namespace Filter

inductive TenantOnly (fields : Fields) : Filter → Prop
  | leaf {test} : fields.scope test.field? = .tenant → TenantOnly fields (leaf test)
  | and {members} : (∀ member ∈ members, TenantOnly fields member) → TenantOnly fields (and members)
  | group {child} : TenantOnly fields child → TenantOnly fields (group child)

variable {fields : Fields}

theorem mentionsTenant_eq_false_iff {filter : Filter} :
    filter.mentionsTenant fields = false ↔
      ∀ test ∈ filter.leaves, fields.scope test.field? ≠ .tenant := by
  rw [mentionsTenant_eq, List.any_eq_false]
  exact forall₂_congr fun test _ => not_congr Fields.isTenant_iff

theorem TenantOnly.isTenantClause {filter : Filter} (tenant : TenantOnly fields filter) :
    filter.isTenantClause fields = true := by
  induction tenant with
  | leaf tenant =>
      rw [Filter.isTenantClause, Fields.isTenant_iff]
      exact tenant
  | and _ ih =>
      rw [Filter.isTenantClause, List.all_map, List.all_eq_true]
      exact ih
  | group _ ih =>
      rw [Filter.isTenantClause]
      exact ih

theorem isTenantClause_iff {filter : Filter} :
    filter.isTenantClause fields = true ↔ TenantOnly fields filter := by
  refine ⟨fun passes => ?_, TenantOnly.isTenantClause⟩
  induction filter with
  | leaf test =>
      rw [isTenantClause, Fields.isTenant_iff] at passes
      exact .leaf passes
  | and members ih =>
      rw [isTenantClause, List.all_map, List.all_eq_true] at passes
      exact .and fun member present => ih member present (passes member present)
  | group child ih =>
      rw [isTenantClause] at passes
      exact .group (ih passes)
  | not child _ => simp [isTenantClause] at passes
  | or members _ => simp [isTenantClause] at passes
  | all => simp [isTenantClause] at passes
  | none => simp [isTenantClause] at passes

theorem tenantOnly_of_mem_tenantClauses {filter clause : Filter}
    (lead : clause ∈ filter.tenantClauses fields) : TenantOnly fields clause := by
  rw [← isTenantClause_iff]
  exact List.all_eq_true.mp List.all_takeWhile clause lead

instance : DecidablePred (TenantOnly fields) := fun _ => decidable_of_iff _ isTenantClause_iff

theorem TenantOnly.scope_of_mem_leaves {clause : Filter} (tenant : TenantOnly fields clause) :
    ∀ test ∈ clause.leaves, fields.scope test.field? = .tenant := by
  induction tenant with
  | leaf known =>
      intro test present
      rw [leaves, List.mem_singleton] at present
      exact present ▸ known
  | and _ ih =>
      intro test present
      rw [leaves, List.mem_flatMap] at present
      obtain ⟨member, among, inside⟩ := present
      exact ih member among test inside
  | group _ ih =>
      intro test present
      rw [leaves] at present
      exact ih test present

theorem TenantOnly.verdict_eq {clause : Filter} (tenant : TenantOnly fields clause)
    (valuation : Leaf → Bool) :
    clause.verdict fields valuation = some (clause.holds valuation) := by
  apply verdict_of_decides
  intro test known
  exact Fields.decides_of_scope_eq_tenant (tenant.scope_of_mem_leaves test known)

theorem TenantOnly.valuation_of_holds {clause : Filter} (tenant : TenantOnly fields clause)
    {valuation : Leaf → Bool} (holding : clause.holds valuation = true) :
    ∀ test ∈ clause.leaves, valuation test = true := by
  induction tenant with
  | leaf _ =>
      intro test present
      rw [leaves, List.mem_singleton] at present
      rwa [present, ← holds_leaf valuation]
  | and _ ih =>
      intro test present
      rw [holds_and, List.all_eq_true] at holding
      rw [leaves, List.mem_flatMap] at present
      obtain ⟨member, among, inside⟩ := present
      exact ih member among (holding member among) test inside
  | group _ ih =>
      intro test present
      rw [holds_group] at holding
      rw [leaves] at present
      exact ih holding test present

theorem TenantOnly.holds_relax {clause : Filter} (tenant : TenantOnly fields clause)
    (valuation : Leaf → Bool) :
    (clause.relax fields).holds valuation = clause.holds valuation := by
  rw [Filter.holds_relax, tenant.verdict_eq, Option.getD_some]

end Filter

end ScopedFilter
