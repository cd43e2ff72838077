import Mathlib
import ScopedFilter.Proofs.Executable
import ScopedFilter.Proofs.TenantClause

/-!
What the stack store is asked. A query is built from tests of the filter that the store decides, in
their order, and every test arrives under the store's own name for its field. Main statement:
`evaluable_queries`.
-/

namespace ScopedFilter

/-- How a test arrives at the store: under the name that the configured entry of its field has
there, and otherwise as it was. -/
def Leaf.StoredAs (fields : Fields) (test stored : Leaf) : Prop :=
  ∃ name entry, test.field? = some name ∧ (fields.resolve name, entry) ∈ fields.table.rows ∧
    stored.field? = some entry.storeField ∧ stored.withField name = test

namespace Fields

variable {fields : Fields} {test : Leaf}

theorem entry_of_decides (decided : fields.decides test = true) :
    ∃ name entry, test.field? = some name ∧ fields.lookup? name = some entry := by
  rw [decides, scope_eq] at decided
  cases found : test.field?.bind fields.lookup? with
  | none => simp [found, Scope.decidable] at decided
  | some entry =>
      obtain ⟨name, named, known⟩ := Option.bind_eq_some_iff.mp found
      exact ⟨name, entry, named, known⟩

theorem storedAs_storeLeaf (decided : fields.decides test = true) :
    test.StoredAs fields (fields.storeLeaf test) := by
  obtain ⟨name, entry, named, known⟩ := entry_of_decides decided
  have moved : fields.storeLeaf test = test.withField entry.storeField := by
    rw [storeLeaf, named, Option.bind_some, known]
  refine ⟨name, entry, named, Table.lookup?_eq_some_iff.mp known, ?_, ?_⟩
  · rw [moved, Leaf.field?_withField]
  · rw [moved, Leaf.withField_withField, Leaf.withField_of_field? named]

end Fields

namespace Filter

variable {fields : Fields} {filter part : Filter} {members : List Filter}

theorem forall_mem_leaves_filterMap {property : Leaf → Prop} {change : Filter → Option Filter}
    (each : ∀ member ∈ members, ∀ part, change member = some part →
      ∀ test ∈ part.leaves, property test) :
    ∀ test ∈ (members.filterMap change).flatMap leaves, property test := by
  intro test present
  obtain ⟨part, known, inside⟩ := List.mem_flatMap.mp present
  obtain ⟨member, among, found⟩ := List.mem_filterMap.mp known
  exact each member among part found test inside

theorem decides_of_mem_leaves_reduce (reduced : filter.reduce fields = some part) :
    ∀ test ∈ part.leaves, fields.decides test = true := by
  induction filter generalizing part with
  | leaf test =>
      obtain ⟨decided, rfl⟩ := reduce_leaf_eq_some_iff.mp reduced
      simpa [leaves] using decided
  | not child ih =>
      rw [reduce, Option.map_eq_some_iff] at reduced
      obtain ⟨inner, found, rfl⟩ := reduced
      rw [leaves_negate]
      exact ih found
  | and members ih =>
      rw [reduce, Option.some.injEq] at reduced
      subst reduced
      intro test present
      exact forall_mem_leaves_filterMap (fun member among _ found => ih member among found) test
        ((leaves_conj_sublist _).subset present)
  | or members ih =>
      rw [(reduce_or_eq_some_iff.mp reduced).2]
      intro test present
      exact forall_mem_leaves_filterMap (fun member among _ found => ih member among found) test
        ((leaves_disj_sublist _).subset present)
  | group child ih =>
      rw [reduce, Option.map_eq_some_iff] at reduced
      obtain ⟨inner, found, rfl⟩ := reduced
      rw [leaves_regrouped]
      exact ih found
  | all | none =>
      rw [reduce] at reduced
      cases reduced
      simp [leaves]

theorem decides_of_mem_leaves_relax (filter : Filter) :
    ∀ test ∈ (filter.relax fields).leaves, fields.decides test = true := by
  rw [relax]
  cases reduced : filter.reduce fields with
  | none => simp [leaves]
  | some part => exact decides_of_mem_leaves_reduce reduced

theorem decides_of_mem_leaves_complement {complement : Filter}
    (found : filter.complement? fields = some complement) :
    ∀ test ∈ complement.leaves, fields.decides test = true := by
  rw [(complement?_eq_some_iff.mp found).2]
  intro test present
  obtain ⟨member, among, inside⟩ := List.mem_flatMap.mp ((leaves_conj_sublist _).subset present)
  rcases List.mem_append.mp among with lead | last
  · have tenant := tenantOnly_of_mem_tenantClauses lead
    exact Fields.decides_of_scope_eq_tenant (tenant.scope_of_mem_leaves test inside)
  · rw [List.mem_singleton.mp last, leaves_negate] at inside
    exact decides_of_mem_leaves_relax _ test inside

theorem forall₂_storedAs (decided : ∀ test ∈ part.leaves, fields.decides test = true) :
    List.Forall₂ (Leaf.StoredAs fields) part.leaves (part.inStore fields).leaves := by
  rw [inStore, leaves_mapLeaves, List.forall₂_map_right_iff, List.forall₂_same]
  intro test present
  exact Fields.storedAs_storeLeaf (decided test present)

/-- The part says nothing that the filter does not say or that the store cannot evaluate. -/
structure Evaluable (fields : Fields) (filter part : Filter) : Prop where
  chosen : part.leaves.Sublist filter.leaves
  decided : ∀ test ∈ part.leaves, fields.decides test = true
  stored : List.Forall₂ (Leaf.StoredAs fields) part.leaves (part.inStore fields).leaves

theorem evaluable_relax (filter : Filter) : Evaluable fields filter (filter.relax fields) where
  chosen := leaves_relax_sublist filter
  decided := decides_of_mem_leaves_relax filter
  stored := forall₂_storedAs (decides_of_mem_leaves_relax filter)

theorem evaluable_complement {complement : Filter}
    (found : filter.complement? fields = some complement) :
    Evaluable fields filter complement where
  chosen := leaves_complement_sublist found
  decided := decides_of_mem_leaves_complement found
  stored := forall₂_storedAs (decides_of_mem_leaves_complement found)

/-- The store can evaluate both rewritings of a filter, and it is never asked anything else. -/
theorem evaluable_queries (fields : Fields) (filter : Filter) :
    Evaluable fields filter (filter.relax fields) ∧
      (∀ complement, filter.complement? fields = some complement →
        Evaluable fields filter complement) ∧
      ∀ sentinels mode query,
        (Engine.answer { fields, sentinels } filter mode).executable? = some query →
        ∃ asked, Evaluable fields filter asked ∧
          query = (asked.inStore fields).toText sentinels := by
  refine ⟨evaluable_relax filter, fun _ => evaluable_complement, ?_⟩
  intro sentinels mode query executable
  rw [Engine.executable?_answer, Option.map_eq_some_iff] at executable
  obtain ⟨asked, found, rfl⟩ := executable
  refine ⟨asked, ?_, rfl⟩
  cases mode with
  | candidates =>
      cases found
      exact evaluable_relax filter
  | excluded => exact evaluable_complement found

theorem evaluable_queries_alias :
    let fields : Fields := ⟨Table.standard, [("state", "status")]⟩
    let project := leaf (.term (some "project") "p1")
    let state := leaf (.phrase (some "state") "open")
    let filter := group (and [project, state, leaf (.term (some "type") "error")])
    let complement := and [project, not state]
    let query := "project_id:p1 AND NOT status:\"open\""
    filter.complement? fields = some complement ∧ Evaluable fields filter complement ∧
      (Engine.answer { fields } filter .excluded).executable? = some query ∧
      ∃ asked, Evaluable fields filter asked ∧ query = (asked.inStore fields).toText .standard := by
  intro fields project state filter complement query
  have found : filter.complement? fields = some complement := by cbv
  have executable : (Engine.answer { fields } filter .excluded).executable? = some query := by cbv
  have queries := evaluable_queries fields filter
  exact ⟨found, queries.2.1 complement found, executable,
    queries.2.2 Sentinels.standard .excluded query executable⟩

end Filter

end ScopedFilter
