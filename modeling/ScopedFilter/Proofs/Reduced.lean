import Mathlib.Data.List.Flatten
import ScopedFilter.Query.Reread
import ScopedFilter.Stack.Rewriting

/-!
What the rewritings for the stack store keep of a filter. They choose among its leaves, in order,
and write them no deeper than they were; only a complement adds a negation around what it negates.
Main statements: `leaves_complement_sublist` and `nesting_complement_le`.
-/

namespace ScopedFilter.Filter

variable {fields : Fields} {members : List Filter} {filter part : Filter}

theorem reduce_leaf_eq_some_iff {test : Leaf} :
    (leaf test).reduce fields = some part ↔ fields.decides test = true ∧ part = leaf test := by
  rw [reduce]
  cases fields.decides test <;> simp [eq_comm]

theorem reduce_or_eq_some_iff :
    (or members).reduce fields = some part ↔
      (∀ member ∈ members, (member.reduce fields).isSome) ∧
        part = disj (members.filterMap (reduce fields)) := by
  rw [reduce, List.filterMap_map, Function.id_comp, List.all_map]
  have decided : members.all (Option.isSome ∘ reduce fields) = true ↔
      ∀ member ∈ members, (member.reduce fields).isSome := List.all_eq_true
  rw [← decided]
  cases members.all (Option.isSome ∘ reduce fields) <;> simp [eq_comm]

theorem complement?_eq_some_iff :
    filter.complement? fields = some part ↔
      (∀ clause ∈ filter.otherClauses fields, clause.mentionsTenant fields = false) ∧
        part = conj (filter.tenantClauses fields ++
          [negate (relax fields (joined and all (filter.otherClauses fields)))]) := by
  have others : (filter.otherClauses fields).any (mentionsTenant fields) = false ↔
      ∀ clause ∈ filter.otherClauses fields, clause.mentionsTenant fields = false := by
    simp
  rw [complement?, ← others]
  cases (filter.otherClauses fields).any (mentionsTenant fields) <;> simp [eq_comm]

theorem mem_leaves_of_mem_clauses {clause : Filter} {test : Leaf} (known : clause ∈ filter.clauses)
    (present : test ∈ clause.leaves) : test ∈ filter.leaves := by
  rw [← leaves_ungrouped, ← leaves_conjuncts]
  exact List.mem_flatMap.mpr ⟨clause, known, present⟩

theorem complement?_of_untenanted (free : ∀ test ∈ filter.leaves, fields.isTenant test = false)
    (other : ∀ clause ∈ filter.clauses, clause.isTenantClause fields = false) :
    filter.complement? fields =
      some (conj [negate (relax fields (joined and all filter.clauses))]) := by
  have tenants : filter.tenantClauses fields = [] := by
    rw [tenantClauses]
    cases listed : filter.clauses with
    | nil => rfl
    | cons first rest =>
        rw [List.takeWhile_cons, other first (by simp [listed])]
        rfl
  have others : filter.otherClauses fields = filter.clauses := by
    have split : filter.tenantClauses fields ++ filter.otherClauses fields = filter.clauses :=
      List.takeWhile_append_dropWhile
    rwa [tenants, List.nil_append] at split
  rw [complement?_eq_some_iff, tenants, others]
  refine ⟨fun clause known => ?_, rfl⟩
  rw [mentionsTenant_eq, List.any_eq_false]
  intro test present
  rw [free test (mem_leaves_of_mem_clauses known present)]
  exact Bool.false_ne_true

section Leaves

theorem leaves_conj_sublist (members : List Filter) :
    (conj members).leaves.Sublist (members.flatMap leaves) := by
  unfold conj
  split
  · rw [leaves]
    exact List.nil_sublist _
  · rw [leaves_joined_and]
    exact List.filter_sublist.flatMap leaves

theorem leaves_disj_sublist (members : List Filter) :
    (disj members).leaves.Sublist (members.flatMap leaves) := by
  unfold disj
  split
  · rw [leaves]
    exact List.nil_sublist _
  · rw [leaves_joined_or]
    exact List.filter_sublist.flatMap leaves

theorem leaves_negate (filter : Filter) : filter.negate.leaves = filter.leaves := by
  cases filter <;> simp [negate, leaves]

theorem leaves_regrouped (filter : Filter) : filter.regrouped.leaves = filter.leaves := by
  unfold regrouped
  split
  · rw [leaves]
  · rfl

theorem flatMap_leaves_filterMap_sublist {change : Filter → Option Filter}
    (each : ∀ member ∈ members, ∀ part, change member = some part →
      part.leaves.Sublist member.leaves) :
    ((members.filterMap change).flatMap leaves).Sublist (members.flatMap leaves) := by
  induction members with
  | nil => exact List.Sublist.refl _
  | cons member rest ih =>
      rw [List.forall_mem_cons] at each
      have later := ih each.2
      rw [List.flatMap_cons]
      cases found : change member with
      | none =>
          rw [List.filterMap_cons_none found]
          exact later.trans (List.sublist_append_right _ _)
      | some part =>
          rw [List.filterMap_cons_some found, List.flatMap_cons]
          exact (each.1 part found).append later

theorem leaves_reduce_sublist (reduced : filter.reduce fields = some part) :
    part.leaves.Sublist filter.leaves := by
  induction filter generalizing part with
  | leaf test =>
      obtain ⟨_, rfl⟩ := reduce_leaf_eq_some_iff.mp reduced
      exact List.Sublist.refl _
  | not child ih =>
      rw [reduce, Option.map_eq_some_iff] at reduced
      obtain ⟨inner, found, rfl⟩ := reduced
      rw [leaves_negate, leaves]
      exact ih found
  | and members ih =>
      rw [reduce, Option.some.injEq] at reduced
      rw [← reduced, leaves]
      exact (leaves_conj_sublist _).trans
        (flatMap_leaves_filterMap_sublist fun member known _ => ih member known)
  | or members ih =>
      rw [(reduce_or_eq_some_iff.mp reduced).2, leaves]
      exact (leaves_disj_sublist _).trans
        (flatMap_leaves_filterMap_sublist fun member known _ => ih member known)
  | group child ih =>
      rw [reduce, Option.map_eq_some_iff] at reduced
      obtain ⟨inner, found, rfl⟩ := reduced
      rw [leaves_regrouped, leaves]
      exact ih found
  | all | none =>
      rw [reduce] at reduced
      cases reduced
      exact List.Sublist.refl _

theorem leaves_relax_sublist (filter : Filter) :
    (filter.relax fields).leaves.Sublist filter.leaves := by
  rw [relax]
  cases reduced : filter.reduce fields with
  | none => simp [leaves]
  | some part => exact leaves_reduce_sublist reduced

theorem leaves_relax_joined_sublist (members : List Filter) :
    ((joined and all members).relax fields).leaves.Sublist (members.flatMap leaves) := by
  rw [← leaves_joined_and]
  exact leaves_relax_sublist _

theorem leaves_split (fields : Fields) (filter : Filter) :
    (filter.tenantClauses fields).flatMap leaves ++ (filter.otherClauses fields).flatMap leaves =
      filter.leaves := by
  rw [← List.flatMap_append, tenantClauses, otherClauses, List.takeWhile_append_dropWhile, clauses,
    leaves_conjuncts, leaves_ungrouped]

theorem leaves_complement_sublist {complement : Filter}
    (found : filter.complement? fields = some complement) :
    complement.leaves.Sublist filter.leaves := by
  rw [(complement?_eq_some_iff.mp found).2, ← leaves_split fields filter]
  refine (leaves_conj_sublist _).trans ?_
  rw [List.flatMap_append, List.flatMap_singleton, leaves_negate]
  exact (List.Sublist.refl _).append (leaves_relax_joined_sublist _)

end Leaves

section Nesting

/-- Written in the place of `whole`, `part` does not lie deeper, whatever the place is. -/
structure NoDeeper (part whole : Filter) : Prop where
  alone : part.nesting ≤ whole.nesting
  inAnd : part.nestingInAnd ≤ whole.nestingInAnd
  inNot : part.nestingInNot ≤ whole.nestingInNot

theorem NoDeeper.refl (filter : Filter) : NoDeeper filter filter :=
  ⟨Nat.le_refl _, Nat.le_refl _, Nat.le_refl _⟩

theorem NoDeeper.trans {first second third : Filter} (left : NoDeeper first second)
    (right : NoDeeper second third) : NoDeeper first third :=
  ⟨Nat.le_trans left.alone right.alone, Nat.le_trans left.inAnd right.inAnd,
    Nat.le_trans left.inNot right.inNot⟩

theorem nestingInAnd_le_nestingInNot (filter : Filter) :
    filter.nestingInAnd ≤ filter.nestingInNot := by
  cases filter <;> simp [nestingInAnd, nestingInNot, isOr, isJoin]

theorem nestingInNot_le (filter : Filter) : filter.nestingInNot ≤ filter.nesting + 1 := by
  rw [nestingInNot]
  split <;> omega

theorem noDeeper_of_nestingInNot_le (shallow : part.nestingInNot ≤ filter.nesting) :
    NoDeeper part filter := by
  have inAnd := Nat.le_trans (nestingInAnd_le_nestingInNot part) shallow
  exact ⟨Nat.le_trans (nesting_le_nestingInAnd part) inAnd,
    Nat.le_trans inAnd (Nat.le_add_right _ _), Nat.le_trans shallow (Nat.le_add_right _ _)⟩

theorem noDeeper_and (shallow : part.nestingInAnd ≤ (and members).nesting) :
    NoDeeper part (and members) := by
  have alone := Nat.le_trans (nesting_le_nestingInAnd part) shallow
  exact ⟨alone, shallow, Nat.le_trans (nestingInNot_le part) (Nat.succ_le_succ alone)⟩

theorem noDeeper_or (shallow : part.nesting ≤ (or members).nesting) :
    NoDeeper part (or members) := by
  have inNot := Nat.le_trans (nestingInNot_le part) (Nat.succ_le_succ shallow)
  exact ⟨shallow, Nat.le_trans (nestingInAnd_le_nestingInNot part) inNot, inNot⟩

theorem noDeeper_all (filter : Filter) : NoDeeper all filter :=
  noDeeper_of_nestingInNot_le (by simp [nestingInNot, nesting, isJoin])

section Constructors

variable {bound : Nat}

theorem nestingInAnd_joined_and_le (each : ∀ member ∈ members, member.nestingInAnd ≤ bound) :
    (joined and all members).nestingInAnd ≤ bound := by
  rcases members with _ | ⟨first, _ | ⟨second, rest⟩⟩
  · simp [joined, nestingInAnd, nesting, isOr]
  · exact each first (by simp)
  · show (and (first :: second :: rest)).nesting ≤ bound
    rw [nesting]
    exact deepest_le_iff.mpr (List.forall_mem_map.mpr each)

theorem nestingInAnd_conj_le (each : ∀ member ∈ members, member.nestingInAnd ≤ bound) :
    (conj members).nestingInAnd ≤ bound := by
  unfold conj
  split
  · rename_i present
    obtain ⟨member, known, constant⟩ := List.any_eq_true.mp present
    rw [isNone_iff] at constant
    exact constant ▸ each member known
  · exact nestingInAnd_joined_and_le fun member known =>
      each member (List.mem_filter.mp known).1

theorem nesting_joined_or_le (empty : members = [] → 1 ≤ bound)
    (each : ∀ member ∈ members, member.nesting ≤ bound) :
    (joined or none members).nesting ≤ bound := by
  rcases members with _ | ⟨first, _ | ⟨second, rest⟩⟩
  · simpa [joined, nesting] using empty
  · exact each first (by simp)
  · show (or (first :: second :: rest)).nesting ≤ bound
    rw [nesting]
    exact deepest_le_iff.mpr (List.forall_mem_map.mpr each)

theorem nesting_disj_le (empty : members = [] → 1 ≤ bound)
    (each : ∀ member ∈ members, member.nesting ≤ bound) : (disj members).nesting ≤ bound := by
  unfold disj
  split
  · simp [nesting]
  · refine nesting_joined_or_le (fun nothing => ?_) fun member known =>
      each member (List.mem_filter.mp known).1
    cases members with
    | nil => exact empty rfl
    | cons first rest =>
        have constant := List.filter_eq_nil_iff.mp nothing first (by simp)
        rw [Bool.not_eq_true', Bool.not_eq_false, isNone_iff] at constant
        simpa [constant, nesting] using each first (by simp)

theorem nestingInNot_negate_le (filter : Filter) :
    filter.negate.nestingInNot ≤ filter.nestingInNot + 1 := by
  cases filter with
  | not child =>
      have inner : child.nestingInNot < (not child).nesting := by
        rw [nesting_not]
        exact Nat.lt_succ_self _
      exact Nat.le_succ_of_le (Nat.le_of_lt inner)
  | _ => simp [negate, nestingInNot, nesting, isJoin]

theorem nestingInNot_regrouped (filter : Filter) :
    filter.regrouped.nestingInNot = filter.nestingInNot := by
  cases filter <;> simp [regrouped, nestingInNot, nesting, isJoin]

end Constructors

theorem noDeeper_reduce (reduced : filter.reduce fields = some part) : NoDeeper part filter := by
  induction filter generalizing part with
  | leaf test =>
      obtain ⟨_, rfl⟩ := reduce_leaf_eq_some_iff.mp reduced
      exact .refl _
  | not child ih =>
      rw [reduce, Option.map_eq_some_iff] at reduced
      obtain ⟨inner, found, rfl⟩ := reduced
      refine noDeeper_of_nestingInNot_le (Nat.le_trans (nestingInNot_negate_le inner) ?_)
      rw [nesting_not]
      exact Nat.succ_le_succ (ih found).inNot
  | and members ih =>
      rw [reduce, Option.some.injEq] at reduced
      subst reduced
      refine noDeeper_and (nestingInAnd_conj_le fun inner known => ?_)
      obtain ⟨member, among, found⟩ := List.mem_filterMap.mp known
      exact Nat.le_trans (ih member among found).inAnd (nesting_le_of_mem_and among)
  | or members ih =>
      obtain ⟨decided, rfl⟩ := reduce_or_eq_some_iff.mp reduced
      refine noDeeper_or (nesting_disj_le (fun nothing => ?_) fun inner known => ?_)
      · cases members with
        | nil => simp [nesting]
        | cons first rest =>
            obtain ⟨inner, found⟩ := Option.isSome_iff_exists.mp (decided first (by simp))
            simp [found] at nothing
      · obtain ⟨member, among, found⟩ := List.mem_filterMap.mp known
        exact Nat.le_trans (ih member among found).alone (nesting_le_of_mem_or among)
  | group child ih =>
      rw [reduce, Option.map_eq_some_iff] at reduced
      obtain ⟨inner, found, rfl⟩ := reduced
      refine noDeeper_of_nestingInNot_le ?_
      rw [nestingInNot_regrouped, nesting]
      exact Nat.le_trans (ih found).inNot (nestingInNot_le child)
  | all | none =>
      rw [reduce] at reduced
      cases reduced
      exact .refl _

theorem noDeeper_relax (filter : Filter) : NoDeeper (filter.relax fields) filter := by
  rw [relax]
  cases reduced : filter.reduce fields with
  | none => exact noDeeper_all filter
  | some part => exact noDeeper_reduce reduced

theorem nesting_ungrouped_le (filter : Filter) : filter.ungrouped.nesting ≤ filter.nesting := by
  induction filter with
  | group child ih =>
      rw [ungrouped, nesting]
      exact Nat.le_succ_of_le ih
  | _ => exact Nat.le_refl _

theorem nestingInAnd_clause_le {clause : Filter} (known : clause ∈ filter.clauses) :
    clause.nestingInAnd ≤ filter.nesting + 1 := by
  refine Nat.le_trans ?_ (Nat.succ_le_succ (nesting_ungrouped_le filter))
  rw [clauses] at known
  cases form : filter.ungrouped with
  | and members =>
      rw [form] at known
      exact Nat.le_succ_of_le (nesting_le_of_mem_and known)
  | _ =>
      rw [form] at known
      rw [List.mem_singleton.mp known]
      exact Nat.le_trans (nestingInAnd_le_nestingInNot _) (nestingInNot_le _)

theorem noDeeper_otherClauses (filter : Filter) :
    NoDeeper (joined and all (filter.otherClauses fields)) filter.ungrouped := by
  rw [otherClauses, clauses]
  cases filter.ungrouped with
  | and members =>
      refine noDeeper_and (nestingInAnd_joined_and_le fun member known => ?_)
      exact nesting_le_of_mem_and (List.dropWhile_subset _ known)
  | _ =>
      rw [conjuncts, List.dropWhile_cons]
      · split
        · exact noDeeper_all _
        · exact .refl _
      · simp

theorem nesting_complement_le {complement : Filter}
    (found : filter.complement? fields = some complement) :
    complement.nesting ≤ filter.nesting + 2 := by
  refine Nat.le_trans (nesting_le_nestingInAnd complement) ?_
  rw [(complement?_eq_some_iff.mp found).2]
  refine nestingInAnd_conj_le fun member known => ?_
  rcases List.mem_append.mp known with lead | last
  · have among := List.takeWhile_subset _ lead
    exact Nat.le_succ_of_le (nestingInAnd_clause_le among)
  · rw [List.mem_singleton.mp last]
    have rest : NoDeeper ((joined and all (filter.otherClauses fields)).relax fields)
        filter.ungrouped := (noDeeper_relax _).trans (noDeeper_otherClauses filter)
    calc _ ≤ _ := nestingInAnd_le_nestingInNot _
      _ ≤ _ := nestingInNot_negate_le _
      _ ≤ filter.ungrouped.nestingInNot + 1 := Nat.succ_le_succ rest.inNot
      _ ≤ filter.nesting + 2 := by
        have := nestingInNot_le filter.ungrouped
        have := nesting_ungrouped_le filter
        omega

end Nesting

end ScopedFilter.Filter
