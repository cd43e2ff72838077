import Mathlib
import ScopedFilter.Filter.Occurrence
import ScopedFilter.Proofs.StoreQuery

/-!
The form of the queries for the stack store. Reduction leaves a constant or a filter in normal form,
and it changes no filter that is in this form already. So a sentinel is all of a query or no part
of it. Main statement: `queries_normal`.
-/

namespace ScopedFilter.Filter

/-- No constants, nothing to join in vain, no double negation, and parentheses around
conjunctions and disjunctions only. -/
inductive Normal : Filter → Prop
  | leaf {test} : Normal (leaf test)
  | not {child} : (∀ inner, child ≠ not inner) → Normal child → Normal (not child)
  | and {members} : 2 ≤ members.length → (∀ member ∈ members, Normal member) →
      Normal (and members)
  | or {members} : 2 ≤ members.length → (∀ member ∈ members, Normal member) → Normal (or members)
  | group {child} : child.isJoin = true → Normal child → Normal (group child)

inductive Solid : Filter → Prop
  | leaf {test} : Solid (leaf test)
  | not {child} : Solid child → Solid (not child)
  | and {members} : members ≠ [] → (∀ member ∈ members, Solid member) → Solid (and members)
  | or {members} : members ≠ [] → (∀ member ∈ members, Solid member) → Solid (or members)
  | group {child} : Solid child → Solid (group child)

def OrConstant (shape : Filter → Prop) (filter : Filter) : Prop :=
  filter = all ∨ filter = none ∨ shape filter

variable {fields : Fields} {filter part : Filter} {members : List Filter}

section Shapes

variable {shape : Filter → Prop}

theorem OrConstant.imp {wider : Filter → Prop} (widens : ∀ part, shape part → wider part)
    (shaped : OrConstant shape filter) : OrConstant wider filter :=
  shaped.imp_right fun rest => rest.imp_right (widens filter)

theorem OrConstant.shaped (form : OrConstant shape filter) (notAll : ¬filter.isAll = true)
    (notNone : ¬filter.isNone = true) : shape filter := by
  rcases form with rfl | rfl | shaped
  · exact absurd rfl notAll
  · exact absurd rfl notNone
  · exact shaped

theorem orConstant_joined {join : List Filter → Filter} {empty : Filter}
    (constant : empty = all ∨ empty = none)
    (closed : ∀ kept : List Filter, 2 ≤ kept.length → (∀ member ∈ kept, shape member) →
      shape (join kept))
    (each : ∀ member ∈ members, shape member) : OrConstant shape (joined join empty members) := by
  rcases members with _ | ⟨first, _ | ⟨second, rest⟩⟩
  · exact constant.imp_right .inl
  · exact .inr (.inr (each first (by simp)))
  · exact .inr (.inr (closed _ (by simp) each))

theorem orConstant_conj
    (closed : ∀ kept, 2 ≤ kept.length → (∀ member ∈ kept, shape member) → shape (and kept))
    (each : ∀ member ∈ members, OrConstant shape member) : OrConstant shape (conj members) := by
  unfold conj
  split
  · exact .inr (.inl rfl)
  · rename_i absent
    refine orConstant_joined (.inl rfl) closed fun member known => ?_
    obtain ⟨among, other⟩ := List.mem_filter.mp known
    have notNone : ¬member.isNone = true := mt (List.any_of_mem among) absent
    exact (each member among).shaped (by simpa using other) notNone

theorem orConstant_disj
    (closed : ∀ kept, 2 ≤ kept.length → (∀ member ∈ kept, shape member) → shape (or kept))
    (each : ∀ member ∈ members, OrConstant shape member) : OrConstant shape (disj members) := by
  unfold disj
  split
  · exact .inl rfl
  · rename_i absent
    refine orConstant_joined (.inr rfl) closed fun member known => ?_
    obtain ⟨among, other⟩ := List.mem_filter.mp known
    have notAll : ¬member.isAll = true := mt (List.any_of_mem among) absent
    exact (each member among).shaped notAll (by simpa using other)

end Shapes

section Reduction

theorem normal_negate (normal : OrConstant Normal filter) : OrConstant Normal filter.negate := by
  rcases normal with rfl | rfl | normal
  · exact .inr (.inl rfl)
  · exact .inl rfl
  · cases normal with
    | not _ inner => exact .inr (.inr inner)
    | leaf => exact .inr (.inr (.not nofun .leaf))
    | and several each => exact .inr (.inr (.not nofun (.and several each)))
    | or several each => exact .inr (.inr (.not nofun (.or several each)))
    | group join inner => exact .inr (.inr (.not nofun (.group join inner)))

theorem normal_regrouped (normal : OrConstant Normal filter) :
    OrConstant Normal filter.regrouped := by
  unfold regrouped
  split
  · rename_i join
    rcases normal with rfl | rfl | normal
    · cases join
    · cases join
    · exact .inr (.inr (.group join normal))
  · exact normal

theorem normal_reduce (reduced : filter.reduce fields = some part) : OrConstant Normal part := by
  induction filter generalizing part with
  | leaf test =>
      obtain ⟨_, rfl⟩ := reduce_leaf_eq_some_iff.mp reduced
      exact .inr (.inr .leaf)
  | not child ih =>
      rw [reduce, Option.map_eq_some_iff] at reduced
      obtain ⟨inner, found, rfl⟩ := reduced
      exact normal_negate (ih found)
  | and members ih =>
      rw [reduce, Option.some.injEq] at reduced
      subst reduced
      refine orConstant_conj (fun _ => .and) fun inner known => ?_
      obtain ⟨member, among, found⟩ := List.mem_filterMap.mp known
      exact ih member among found
  | or members ih =>
      obtain ⟨_, rfl⟩ := reduce_or_eq_some_iff.mp reduced
      refine orConstant_disj (fun _ => .or) fun inner known => ?_
      obtain ⟨member, among, found⟩ := List.mem_filterMap.mp known
      exact ih member among found
  | group child ih =>
      rw [reduce, Option.map_eq_some_iff] at reduced
      obtain ⟨inner, found, rfl⟩ := reduced
      exact normal_regrouped (ih found)
  | all =>
      rw [reduce] at reduced
      cases reduced
      exact .inl rfl
  | none =>
      rw [reduce] at reduced
      cases reduced
      exact .inr (.inl rfl)

theorem normal_relax (filter : Filter) : OrConstant Normal (filter.relax fields) := by
  rw [relax]
  cases reduced : filter.reduce fields with
  | none => exact .inl rfl
  | some part => exact normal_reduce reduced

end Reduction

section FixedPoints

theorem Normal.isAll_eq_false (normal : Normal filter) : filter.isAll = false := by
  cases normal <;> rfl

theorem Normal.isNone_eq_false (normal : Normal filter) : filter.isNone = false := by
  cases normal <;> rfl

theorem conj_eq_and (several : 2 ≤ members.length) (each : ∀ member ∈ members, Normal member) :
    conj members = and members := by
  have present : members.any isNone = false :=
    List.any_eq_false.mpr fun member known => by simp [(each member known).isNone_eq_false]
  have kept : members.filter (!·.isAll) = members :=
    List.filter_eq_self.mpr fun member known => by simp [(each member known).isAll_eq_false]
  simp only [conj, present, kept, joined_of_two_le several, Bool.false_eq_true, if_false]

theorem disj_eq_or (several : 2 ≤ members.length) (each : ∀ member ∈ members, Normal member) :
    disj members = or members := by
  have present : members.any isAll = false :=
    List.any_eq_false.mpr fun member known => by simp [(each member known).isAll_eq_false]
  have kept : members.filter (!·.isNone) = members :=
    List.filter_eq_self.mpr fun member known => by simp [(each member known).isNone_eq_false]
  simp only [disj, present, kept, joined_of_two_le several, Bool.false_eq_true, if_false]

theorem negate_eq_not (single : ∀ inner, filter ≠ not inner) (normal : Normal filter) :
    filter.negate = not filter := by
  cases normal with
  | not _ _ => exact absurd rfl (single _)
  | _ => rfl

theorem filterMap_eq_self {change : Filter → Option Filter}
    (each : ∀ member ∈ members, change member = some member) :
    members.filterMap change = members := by
  rw [List.filterMap_congr each, List.filterMap_some]

theorem reduce_eq_self (normal : Normal filter)
    (decided : ∀ test ∈ filter.leaves, fields.decides test = true) :
    filter.reduce fields = some filter := by
  induction normal with
  | leaf =>
      rw [leaves, List.forall_mem_singleton] at decided
      rw [reduce, decided, cond_true]
  | not single normal ih =>
      rw [leaves] at decided
      rw [reduce, ih decided, Option.map_some, negate_eq_not single normal]
  | and several each ih =>
      rw [leaves, List.forall_mem_flatMap] at decided
      have kept := filterMap_eq_self fun member present =>
        ih member present (decided member present)
      rw [reduce, kept, conj_eq_and several each]
  | or several each ih =>
      rw [leaves, List.forall_mem_flatMap] at decided
      have known := fun member present => ih member present (decided member present)
      rw [reduce_or_eq_some_iff, filterMap_eq_self known, disj_eq_or several each]
      refine ⟨fun member present => ?_, rfl⟩
      rw [known member present, Option.isSome_some]
  | group join _ ih =>
      rw [leaves] at decided
      rw [reduce, ih decided, Option.map_some, regrouped, if_pos join]

theorem relax_eq_self (normal : OrConstant Normal filter)
    (decided : ∀ test ∈ filter.leaves, fields.decides test = true) :
    filter.relax fields = filter := by
  rcases normal with rfl | rfl | normal
  · rw [relax, reduce, Option.getD_some]
  · rw [relax, reduce, Option.getD_some]
  · rw [relax, reduce_eq_self normal decided, Option.getD_some]

end FixedPoints

section Sentinels

theorem Normal.solid (normal : Normal filter) : Solid filter := by
  induction normal with
  | leaf => exact .leaf
  | not _ _ ih => exact .not ih
  | and several _ ih => exact .and (List.ne_nil_of_length_pos (by omega)) ih
  | or several _ ih => exact .or (List.ne_nil_of_length_pos (by omega)) ih
  | group _ _ ih => exact .group ih

theorem Canonical.solid (canonical : Canonical filter) (free : ConstantFree filter) :
    Solid filter := by
  induction canonical with
  | leaf => exact .leaf
  | not _ _ ih => exact .not (ih (free.of_occurs (.not .here)))
  | and several _ _ ih =>
      refine .and (List.ne_nil_of_length_pos (by omega)) fun member present => ?_
      exact ih member present (free.of_occurs (.and present .here))
  | or several _ _ ih =>
      refine .or (List.ne_nil_of_length_pos (by omega)) fun member present => ?_
      exact ih member present (free.of_occurs (.or present .here))
  | group _ ih => exact .group (ih (free.of_occurs (.group .here)))
  | all => exact absurd rfl (free _ 0 .here).1

theorem Solid.of_occurs {nots : Nat} (solid : Solid filter) (occurs : Occurs part nots filter) :
    Solid part := by
  induction occurs with
  | here => exact solid
  | not _ ih =>
      cases solid with
      | not inner => exact ih inner
  | and present _ ih =>
      cases solid with
      | and _ each => exact ih (each _ present)
  | or present _ ih =>
      cases solid with
      | or _ each => exact ih (each _ present)
  | group _ ih =>
      cases solid with
      | group inner => exact ih inner

theorem Solid.constantFree (solid : Solid filter) : ConstantFree filter := by
  intro part nots occurs
  have inner := solid.of_occurs occurs
  constructor
  · rintro rfl
    cases inner
  · rintro rfl
    cases inner

theorem Solid.inStore (solid : Solid filter) : Solid (filter.inStore fields) := by
  unfold Filter.inStore
  induction solid with
  | leaf =>
      rw [mapLeaves]
      exact .leaf
  | not _ ih =>
      rw [mapLeaves]
      exact .not ih
  | and nonempty _ ih =>
      rw [mapLeaves]
      exact .and (by simpa using nonempty) (List.forall_mem_map.mpr ih)
  | or nonempty _ ih =>
      rw [mapLeaves]
      exact .or (by simpa using nonempty) (List.forall_mem_map.mpr ih)
  | group _ ih =>
      rw [mapLeaves]
      exact .group ih

theorem Solid.written_eq (solid : Solid filter) (first second : Sentinels) :
    filter.written first = filter.written second := by
  induction solid with
  | leaf => rw [written, written]
  | not _ ih => rw [written, written, ih]
  | @and members nonempty _ ih =>
      have some : ¬members.isEmpty = true := by simpa using nonempty
      rw [written, written, if_neg some, if_neg some,
        List.map_congr_left fun member present => by rw [ih member present]]
  | @or members nonempty _ ih =>
      have some : ¬members.isEmpty = true := by simpa using nonempty
      rw [written, written, if_neg some, if_neg some, List.map_congr_left ih]
  | group _ ih => rw [written, written, ih]

theorem TenantOnly.constantFree {clause : Filter} (tenant : TenantOnly fields clause) :
    ConstantFree clause := by
  intro part nots occurs
  induction occurs with
  | here => cases tenant <;> simp
  | not _ _ => cases tenant
  | or _ _ _ => cases tenant
  | and present _ ih =>
      cases tenant with
      | and each => exact ih (each _ present)
  | group _ ih =>
      cases tenant with
      | group inner => exact ih inner

theorem Canonical.ungrouped (canonical : Canonical filter) : Canonical filter.ungrouped := by
  induction canonical with
  | group _ ih => exact ih
  | leaf => exact .leaf
  | not single inner _ => exact .not single inner
  | and several single each _ => exact .and several single each
  | or several single each _ => exact .or several single each
  | all => exact .all

theorem Canonical.of_mem_clauses {clause : Filter} (canonical : Canonical filter)
    (known : clause ∈ filter.clauses) : Canonical clause := by
  have inner := canonical.ungrouped
  rw [clauses] at known
  cases form : filter.ungrouped with
  | and members =>
      rw [form] at known inner
      cases inner with
      | and _ _ each => exact each clause known
  | _ =>
      rw [form] at known inner
      rwa [List.mem_singleton.mp known]

theorem solid_complement {complement : Filter} (canonical : Canonical filter)
    (found : filter.complement? fields = some complement) : OrConstant Solid complement := by
  rw [(complement?_eq_some_iff.mp found).2]
  refine orConstant_conj (fun kept several => .and (List.ne_nil_of_length_pos (by omega)))
    fun member known => ?_
  rcases List.mem_append.mp known with lead | last
  · have tenant := tenantOnly_of_mem_tenantClauses lead
    have clause := canonical.of_mem_clauses (List.takeWhile_subset _ lead)
    exact .inr (.inr (clause.solid tenant.constantFree))
  · rw [List.mem_singleton.mp last]
    exact (normal_negate (normal_relax _)).imp fun _ => Normal.solid

theorem solid_asked {mode : Mode} {query : Filter} (canonical : Canonical filter)
    (asked : filter.asked? fields mode = some query) : OrConstant Solid query := by
  cases mode with
  | candidates =>
      cases asked
      exact (normal_relax filter).imp fun _ => Normal.solid
  | excluded => exact solid_complement canonical asked

theorem queryText_all (sentinels : Sentinels) :
    Engine.queryText ⟨fields, sentinels⟩ all = sentinels.all := by
  rw [Engine.queryText, Filter.inStore, mapLeaves, toText, written, String.ofList_toList]

theorem queryText_none (sentinels : Sentinels) :
    Engine.queryText ⟨fields, sentinels⟩ none = sentinels.none := by
  rw [Engine.queryText, Filter.inStore, mapLeaves, toText, written, String.ofList_toList]

theorem Solid.queryText_eq (solid : Solid filter) (first second : Sentinels) :
    Engine.queryText ⟨fields, first⟩ filter = Engine.queryText ⟨fields, second⟩ filter := by
  simp only [Engine.queryText, toText, solid.inStore.written_eq first second]

/-- Relaxed filters are in normal form, and relaxing keeps what is in normal form. A query is a
constant, written as nothing but its sentinel, or contains none and is written without sentinels. -/
theorem queries_normal (fields : Fields) :
    (∀ filter : Filter, OrConstant Normal (filter.relax fields)) ∧
      (∀ filter : Filter, OrConstant Normal filter →
        (∀ test ∈ filter.leaves, fields.decides test = true) → filter.relax fields = filter) ∧
      (∀ filter : Filter, (filter.relax fields).relax fields = filter.relax fields) ∧
      ∀ tokens filter mode query, Filter.ofTokens tokens = .ok filter →
        filter.asked? fields mode = some query →
        (query = all ∧ ∀ sentinels, Engine.queryText ⟨fields, sentinels⟩ query = sentinels.all) ∨
        (query = none ∧ ∀ sentinels, Engine.queryText ⟨fields, sentinels⟩ query = sentinels.none) ∨
        (ConstantFree query ∧ ∀ first second,
          Engine.queryText ⟨fields, first⟩ query = Engine.queryText ⟨fields, second⟩ query) := by
  refine ⟨normal_relax, fun filter => relax_eq_self, fun filter => ?_, ?_⟩
  · exact relax_eq_self (normal_relax filter) (decides_of_mem_leaves_relax filter)
  · intro tokens filter mode query read asked
    rcases solid_asked (canonical_of_ofTokens read) asked with rfl | rfl | solid
    · exact .inl ⟨rfl, queryText_all⟩
    · exact .inr (.inl ⟨rfl, queryText_none⟩)
    · exact .inr (.inr ⟨solid.constantFree, solid.queryText_eq⟩)

theorem queries_normal_project :
    let fields : Fields := ⟨Table.standard, []⟩
    let project := leaf (.term (some "project") "p1")
    let status := leaf (.term (some "status") "open")
    let last := leaf (.range "last" "5" "*" ⟨true, true⟩)
    let text := "(project:p1 -(-status:open OR last:>=5) type:x)"
    let filter := group (and [project, not (group (or [not status, last])),
      leaf (.term (some "type") "x")])
    let query := and [project, group (or [not status, last])]
    Filter.parse text = .ok filter ∧ filter.asked? fields .excluded = some query ∧
      Normal query ∧ (∀ test ∈ query.leaves, fields.decides test = true) ∧
      query.relax fields = query ∧ ∀ first second,
        Engine.queryText ⟨fields, first⟩ query = Engine.queryText ⟨fields, second⟩ query := by
  intro fields project status last text filter query
  have read : Filter.parse text = .ok filter := by cbv
  have asked : filter.asked? fields .excluded = some query := by cbv
  have negation : Normal (not status) := .not (by simp [status]) .leaf
  have inner : Normal (or [not status, last]) :=
    .or (by simp) (by simp [negation, last, Normal.leaf])
  have normal : Normal query :=
    .and (by simp) (by simp [project, Normal.leaf, Normal.group rfl inner])
  have decided : ∀ test ∈ query.leaves, fields.decides test = true :=
    decides_of_mem_leaves_complement asked
  obtain ⟨_, fixed, _, written⟩ := queries_normal fields
  refine ⟨read, asked, normal, decided, fixed query (.inr (.inr normal)) decided, ?_⟩
  rcases written _ filter .excluded query read asked with ⟨constant, _⟩ | ⟨constant, _⟩ | free
  · simp [query] at constant
  · simp [query] at constant
  · exact free.2

end Sentinels

end ScopedFilter.Filter
