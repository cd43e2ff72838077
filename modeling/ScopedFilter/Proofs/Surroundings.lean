import Mathlib
import ScopedFilter.Context.Registry
import ScopedFilter.Proofs.TenantClause

/-!
Filters that differ in one part only. A part that reduces to nothing and tests no tenant field can
be exchanged for another such part: what the stack store is asked stays the same. Main statement:
`fill_irrelevant_congr`.
-/

namespace ScopedFilter.Filter

inductive Surroundings where
  | hole
  | not (inner : Surroundings)
  | and (before : List Filter) (inner : Surroundings) (after : List Filter)
  | or (before : List Filter) (inner : Surroundings) (after : List Filter)
  | group (inner : Surroundings)

def Surroundings.fill (part : Filter) : Surroundings → Filter
  | hole => part
  | not inner => .not (inner.fill part)
  | and before inner after => .and (before ++ inner.fill part :: after)
  | or before inner after => .or (before ++ inner.fill part :: after)
  | group inner => .group (inner.fill part)

variable {fields : Fields}

theorem reduce_ungrouped_of_uncertain {filter : Filter}
    (uncertain : filter.reduce fields = Option.none) :
    filter.ungrouped.reduce fields = Option.none := by
  induction filter with
  | group child ih =>
      rw [reduce, Option.map_eq_none_iff] at uncertain
      exact ih uncertain
  | _ => exact uncertain

theorem clauses_of_uncertain {filter : Filter} (uncertain : filter.reduce fields = Option.none) :
    filter.clauses = [filter.ungrouped] := by
  have inner := reduce_ungrouped_of_uncertain uncertain
  rw [clauses]
  cases form : filter.ungrouped with
  | and members => simp [form, reduce] at inner
  | _ => rfl

theorem relax_joined_and (members : List Filter) :
    (joined and all members).relax fields = (and members).relax fields := by
  rcases members with _ | ⟨member, _ | ⟨next, rest⟩⟩
  · simp [joined, relax, reduce, conj]
  · simp only [joined, relax, reduce, List.filterMap_cons, List.filterMap_nil]
    rcases member.reduce fields with _ | (_ | _ | _ | _ | _ | _ | _) <;> rfl
  · rfl

theorem isTenantClause_and (members : List Filter) :
    (and members).isTenantClause fields = members.all (isTenantClause fields) := by
  rw [isTenantClause, List.all_map]
  rfl

namespace Surroundings

variable {first second : Filter}

theorem reduce_fill_congr (same : first.reduce fields = second.reduce fields)
    (surroundings : Surroundings) :
    (surroundings.fill first).reduce fields = (surroundings.fill second).reduce fields := by
  induction surroundings with
  | hole => exact same
  | not inner ih => simp only [fill, reduce, ih]
  | and before inner after ih =>
      simp only [fill, reduce, List.filterMap_append, List.filterMap_cons, ih]
  | or before inner after ih => simp only [fill, reduce, List.map_append, List.map_cons, ih]
  | group inner ih => simp only [fill, reduce, ih]

theorem mentionsTenant_fill_congr
    (same : first.mentionsTenant fields = second.mentionsTenant fields)
    (surroundings : Surroundings) :
    (surroundings.fill first).mentionsTenant fields =
      (surroundings.fill second).mentionsTenant fields := by
  simp only [mentionsTenant_eq] at same ⊢
  induction surroundings with
  | hole => exact same
  | not inner ih => simp only [fill, leaves, ih]
  | and before inner after ih =>
      simp only [fill, leaves, List.flatMap_append, List.flatMap_cons, List.any_append, ih]
  | or before inner after ih =>
      simp only [fill, leaves, List.flatMap_append, List.flatMap_cons, List.any_append, ih]
  | group inner ih => simp only [fill, leaves, ih]

theorem isTenantClause_fill {part : Filter} (other : part.isTenantClause fields = false)
    (surroundings : Surroundings) :
    (surroundings.fill part).isTenantClause fields = false := by
  induction surroundings with
  | hole => exact other
  | not inner ih => simp [fill, isTenantClause]
  | and before inner after ih =>
      rw [fill, isTenantClause_and, List.all_append, List.all_cons, ih]
      simp
  | or before inner after ih => simp [fill, isTenantClause]
  | group inner ih =>
      rw [fill, isTenantClause]
      exact ih

end Surroundings

section Split

variable {before after : List Filter} {clause : Filter}

theorem takeWhile_tenant_append (other : clause.isTenantClause fields = false) :
    (before ++ clause :: after).takeWhile (isTenantClause fields) =
      before.takeWhile (isTenantClause fields) := by
  induction before with
  | nil => simp [other]
  | cons lead before ih =>
      rw [List.cons_append, List.takeWhile_cons, List.takeWhile_cons, ih]

theorem dropWhile_tenant_append (other : clause.isTenantClause fields = false) :
    (before ++ clause :: after).dropWhile (isTenantClause fields) =
      before.dropWhile (isTenantClause fields) ++ clause :: after := by
  induction before with
  | nil => simp [other]
  | cons lead before ih =>
      rw [List.cons_append, List.dropWhile_cons, List.dropWhile_cons, ih]
      split <;> rfl

end Split

theorem complement?_clause_congr {left right first second : Filter} {before after : List Filter}
    (leftClauses : left.clauses = before ++ first :: after)
    (rightClauses : right.clauses = before ++ second :: after)
    (firstOther : first.isTenantClause fields = false)
    (secondOther : second.isTenantClause fields = false)
    (mentions : first.mentionsTenant fields = second.mentionsTenant fields)
    (reduces : first.reduce fields = second.reduce fields) :
    left.complement? fields = right.complement? fields := by
  have relaxes : (and (before.dropWhile (isTenantClause fields) ++ first :: after)).relax fields =
      (and (before.dropWhile (isTenantClause fields) ++ second :: after)).relax fields := by
    rw [relax, relax]
    congr 1
    exact Surroundings.reduce_fill_congr reduces (.and _ .hole after)
  simp only [complement?, tenantClauses, otherClauses, leftClauses, rightClauses,
    takeWhile_tenant_append firstOther, takeWhile_tenant_append secondOther,
    dropWhile_tenant_append firstOther, dropWhile_tenant_append secondOther,
    relax_joined_and, relaxes, List.any_append, List.any_cons, mentions]

/-- What may stand at a place about which the stack store learns nothing. -/
structure Irrelevant (fields : Fields) (part : Filter) : Prop where
  uncertain : part.reduce fields = Option.none
  tenantFree : ∀ test ∈ part.leaves, fields.scope test.field? ≠ .tenant

namespace Irrelevant

variable {part : Filter}

theorem ungrouped (irrelevant : Irrelevant fields part) : Irrelevant fields part.ungrouped where
  uncertain := reduce_ungrouped_of_uncertain irrelevant.uncertain
  tenantFree := by
    rw [leaves_ungrouped]
    exact irrelevant.tenantFree

theorem isTenantClause_eq_false (irrelevant : Irrelevant fields part) :
    part.isTenantClause fields = false := by
  rw [Bool.eq_false_iff]
  intro passes
  have decided := (isTenantClause_iff.mp passes).verdict_eq fun _ => true
  rw [← map_holds_reduce, irrelevant.uncertain] at decided
  cases decided

theorem mentionsTenant_eq_false (irrelevant : Irrelevant fields part) :
    part.mentionsTenant fields = false :=
  mentionsTenant_eq_false_iff.mpr irrelevant.tenantFree

end Irrelevant

section Exchange

variable {first second : Filter} (firstIrrelevant : Irrelevant fields first)
  (secondIrrelevant : Irrelevant fields second)
include firstIrrelevant secondIrrelevant

theorem reduce_fill_eq (surroundings : Surroundings) :
    (surroundings.fill first).reduce fields = (surroundings.fill second).reduce fields :=
  Surroundings.reduce_fill_congr
    (firstIrrelevant.uncertain.trans secondIrrelevant.uncertain.symm) surroundings

theorem mentionsTenant_fill_eq (surroundings : Surroundings) :
    (surroundings.fill first).mentionsTenant fields =
      (surroundings.fill second).mentionsTenant fields :=
  Surroundings.mentionsTenant_fill_congr
    (firstIrrelevant.mentionsTenant_eq_false.trans secondIrrelevant.mentionsTenant_eq_false.symm)
    surroundings

theorem complement?_eq_of_clauses {left right : Filter} (before : List Filter)
    (surroundings : Surroundings) (after : List Filter)
    (leftClauses : left.clauses = before ++ surroundings.fill first :: after)
    (rightClauses : right.clauses = before ++ surroundings.fill second :: after) :
    left.complement? fields = right.complement? fields :=
  complement?_clause_congr leftClauses rightClauses
    (Surroundings.isTenantClause_fill firstIrrelevant.isTenantClause_eq_false surroundings)
    (Surroundings.isTenantClause_fill secondIrrelevant.isTenantClause_eq_false surroundings)
    (mentionsTenant_fill_eq firstIrrelevant secondIrrelevant surroundings)
    (reduce_fill_eq firstIrrelevant secondIrrelevant surroundings)

theorem complement?_fill_eq (surroundings : Surroundings) :
    (surroundings.fill first).complement? fields =
      (surroundings.fill second).complement? fields := by
  induction surroundings with
  | hole =>
      exact complement?_eq_of_clauses firstIrrelevant.ungrouped secondIrrelevant.ungrouped
        [] .hole [] (clauses_of_uncertain firstIrrelevant.uncertain)
        (clauses_of_uncertain secondIrrelevant.uncertain)
  | not inner _ =>
      exact complement?_eq_of_clauses firstIrrelevant secondIrrelevant [] (.not inner) [] rfl rfl
  | and before inner after _ =>
      exact complement?_eq_of_clauses firstIrrelevant secondIrrelevant before inner after rfl rfl
  | or before inner after _ =>
      exact complement?_eq_of_clauses firstIrrelevant secondIrrelevant
        [] (.or before inner after) [] rfl rfl
  | group inner ih => exact ih

end Exchange

theorem answer_congr {engine : Engine} {left right : Filter}
    (reduces : left.reduce engine.fields = right.reduce engine.fields)
    (complements : left.complement? engine.fields = right.complement? engine.fields) (mode : Mode) :
    engine.answer left mode = engine.answer right mode := by
  simp only [Engine.answer, relax, reduces, complements]

/-- Two filters that differ in irrelevant parts only are reduced and complemented to the same
trees, and every context answers them alike. -/
theorem fill_irrelevant_congr (surroundings : Surroundings) {first second : Filter}
    (firstIrrelevant : Irrelevant fields first) (secondIrrelevant : Irrelevant fields second) :
    let left := surroundings.fill first
    let right := surroundings.fill second
    left.reduce fields = right.reduce fields ∧
      left.complement? fields = right.complement? fields ∧
      ∀ leftText rightText mode, Filter.parse leftText = .ok left →
        Filter.parse rightText = .ok right →
        (∀ sentinels, Engine.run { fields, sentinels } leftText mode =
          Engine.run { fields, sentinels } rightText mode) ∧
        ∀ registry context, (Registry.prepare registry context).2.fields context = fields →
          registry.run context leftText mode = registry.run context rightText mode := by
  intro left right
  have reduces := reduce_fill_eq firstIrrelevant secondIrrelevant surroundings
  have complements := complement?_fill_eq firstIrrelevant secondIrrelevant surroundings
  refine ⟨reduces, complements, fun leftText rightText mode leftParsed rightParsed => ?_⟩
  have runs (sentinels : Sentinels) : Engine.run { fields, sentinels } leftText mode =
      Engine.run { fields, sentinels } rightText mode := by
    simp only [Engine.run, leftParsed, rightParsed]
    rw [answer_congr reduces complements]
  refine ⟨runs, fun registry context snapshot => ?_⟩
  rw [Registry.run, Registry.run]
  rcases prepared : registry.prepare context with ⟨_ | _, after⟩
  · rfl
  · rw [prepared] at snapshot
    simp only
    rw [snapshot, runs]

theorem fill_irrelevant_congr_status :
    let fields : Fields := ⟨Table.standard, []⟩
    let surroundings : Surroundings :=
      .and [leaf (.term (some "status") "open")] (.not (.group .hole)) []
    let first := leaf (.term (some "type") "error")
    let second := or [leaf (.term (some "tag") "x"), leaf (.term (some "status") "fixed")]
    let leftText := "status:open -(type:error)"
    let rightText := "status:open -(tag:x OR status:fixed)"
    Irrelevant fields first ∧ Irrelevant fields second ∧
      Filter.parse leftText = .ok (surroundings.fill first) ∧
      Filter.parse rightText = .ok (surroundings.fill second) ∧
      ∀ mode, Engine.standard.run leftText mode = Engine.standard.run rightText mode := by
  intro fields surroundings first second leftText rightText
  have firstIrrelevant : Irrelevant fields first :=
    ⟨by cbv, by simp only [first, leaves, List.forall_mem_singleton]; decide⟩
  have secondIrrelevant : Irrelevant fields second :=
    ⟨by cbv, by simp only [second, leaves, List.flatMap_cons]; decide⟩
  have leftParsed : Filter.parse leftText = .ok (surroundings.fill first) := by cbv
  have rightParsed : Filter.parse rightText = .ok (surroundings.fill second) := by cbv
  refine ⟨firstIrrelevant, secondIrrelevant, leftParsed, rightParsed, fun mode => ?_⟩
  exact ((fill_irrelevant_congr surroundings firstIrrelevant secondIrrelevant).2.2
    leftText rightText mode leftParsed rightParsed).1 Sentinels.standard

end ScopedFilter.Filter
