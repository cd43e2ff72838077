import Mathlib
import ScopedFilter.Proofs.Misjudged
import ScopedFilter.Proofs.TenantClause

/-!
A filter and its complement. Both are read clause by clause: the tenant clauses have to hold in
both, and the relaxed other clauses in just one of them. Main statements:
`relax_complement_partition`, and `complement_avoids_iff` on when the complement has no matches.
-/

namespace ScopedFilter.Filter

variable {fields : Fields}

theorem holds_clauses (valuation : Leaf → Bool) (filter : Filter) :
    filter.clauses.all (holds valuation) = filter.holds valuation := by
  rw [clauses, holds_conjuncts, holds_ungrouped]

theorem verdict_ungrouped (valuation : Leaf → Bool) (filter : Filter) :
    filter.ungrouped.verdict fields valuation = filter.verdict fields valuation := by
  induction filter with
  | group child ih => rw [ungrouped, ih, verdict_group]
  | _ => simp [ungrouped]

theorem holds_relax_and (valuation : Leaf → Bool) (members : List Filter) :
    ((and members).relax fields).holds valuation =
      members.all fun member => (member.relax fields).holds valuation := by
  rw [holds_relax, verdict_and, Option.getD_some]
  congr 1
  funext member
  rw [holds_relax]

theorem holds_relax_joined (valuation : Leaf → Bool) (members : List Filter) :
    ((joined and all members).relax fields).holds valuation =
      members.all fun member => (member.relax fields).holds valuation := by
  rcases members with _ | ⟨first, _ | ⟨second, rest⟩⟩
  · simp [joined, holds_relax]
  · simp [joined]
  · exact holds_relax_and valuation _

theorem holds_relax_clauses (valuation : Leaf → Bool) (filter : Filter) :
    (filter.relax fields).holds valuation =
      filter.clauses.all fun clause => (clause.relax fields).holds valuation := by
  rw [holds_relax, ← verdict_ungrouped, ← holds_relax, clauses]
  cases filter.ungrouped with
  | and members => exact holds_relax_and valuation members
  | _ => simp [conjuncts]

theorem holds_relax_tenantClauses (valuation : Leaf → Bool) (filter : Filter) :
    ((filter.tenantClauses fields).all fun clause => (clause.relax fields).holds valuation) =
      (filter.tenantClauses fields).all (holds valuation) := by
  apply all_congr_of_mem
  intro clause present
  exact (tenantOnly_of_mem_tenantClauses present).holds_relax valuation

theorem holds_relax_split (valuation : Leaf → Bool) (filter : Filter) :
    (filter.relax fields).holds valuation =
      ((filter.tenantClauses fields).all (holds valuation) &&
        (filter.otherClauses fields).all fun clause => (clause.relax fields).holds valuation) := by
  rw [holds_relax_clauses, ← holds_relax_tenantClauses, ← List.all_append, tenantClauses,
    otherClauses, List.takeWhile_append_dropWhile]

theorem holds_complement (valuation : Leaf → Bool) {filter complement : Filter}
    (found : filter.complement? fields = some complement) :
    complement.holds valuation =
      ((filter.tenantClauses fields).all (holds valuation) &&
        !(filter.otherClauses fields).all fun clause => (clause.relax fields).holds valuation) := by
  simp only [complement?] at found
  cases mentioned : (filter.otherClauses fields).any (mentionsTenant fields) with
  | true => simp [mentioned] at found
  | false =>
      simp only [mentioned, cond_false, Option.some.injEq] at found
      rw [← found, holds_conj, List.all_append, List.all_cons, List.all_nil, Bool.and_true,
        holds_negate, holds_relax_joined]

theorem tenantClauses_eq (filter : Filter) :
    filter.tenantClauses fields =
      filter.clauses.takeWhile fun clause => decide (TenantOnly fields clause) := by
  rw [tenantClauses]
  congr 1
  funext clause
  rw [Bool.eq_iff_iff, isTenantClause_iff, decide_eq_true_eq]

/-- The leading tenant clauses are what the two queries share; they split the rest between them. -/
theorem relax_complement_partition {filter complement : Filter}
    (found : filter.complement? fields = some complement) (valuation : Leaf → Bool) :
    let lead := filter.clauses.takeWhile fun clause => decide (TenantOnly fields clause)
    ¬((filter.relax fields).holds valuation = true ∧ complement.holds valuation = true) ∧
      ((filter.relax fields).holds valuation = true ∨ complement.holds valuation = true ↔
        (and lead).holds valuation = true) ∧
      (lead = [] → complement.holds valuation = !(filter.relax fields).holds valuation) := by
  intro lead
  rw [holds_complement valuation found, holds_relax_split, tenantClauses_eq, ← holds_and]
  generalize ((filter.otherClauses fields).all fun clause => (clause.relax fields).holds valuation)
    = others
  refine ⟨?_, ?_, fun alone => ?_⟩
  · cases others <;> simp
  · cases others <;> simp [lead]
  · rw [show filter.clauses.takeWhile _ = [] from alone]
    cases others <;> simp

theorem relax_complement_partition_project :
    let project := leaf (.term (some "project") "p1")
    let filter := group (and [project, leaf (.term (some "status") "open"),
      leaf (.term (some "type") "error")])
    let complement := and [project, not (leaf (.term (some "status") "open"))]
    let fields : Fields := ⟨Table.standard, []⟩
    filter.complement? fields = some complement ∧ ∀ valuation,
      ¬((filter.relax fields).holds valuation = true ∧ complement.holds valuation = true) ∧
        ((filter.relax fields).holds valuation = true ∨ complement.holds valuation = true ↔
          (and [project]).holds valuation = true) := by
  intro project filter complement fields
  have found : filter.complement? fields = some complement := by cbv
  refine ⟨found, fun valuation => ?_⟩
  obtain ⟨apart, covered, _⟩ := relax_complement_partition found valuation
  have lead : filter.clauses.takeWhile (fun clause => decide (TenantOnly fields clause))
      = [project] := by
    rw [← tenantClauses_eq]
    cbv
  rw [lead] at covered
  exact ⟨apart, covered⟩

theorem holds_complement_congr {filter complement : Filter}
    (found : filter.complement? fields = some complement) {first second : Leaf → Bool}
    (agree : ∀ test, fields.decides test = true → first test = second test) :
    complement.holds first = complement.holds second := by
  have relaxed (clause : Filter) :
      (clause.relax fields).holds first = (clause.relax fields).holds second := by
    rw [holds_relax, holds_relax, verdict_congr fields agree]
  rw [holds_complement first found, holds_complement second found, ← holds_relax_tenantClauses,
    ← holds_relax_tenantClauses]
  simp only [relaxed]

/-- What only events decide may differ between the stack that the complement returns and an event of
it. The complement still holds no match of a filter that is not misjudged there. -/
theorem complement_avoids_iff {filter complement : Filter}
    (found : filter.complement? fields = some complement) {first second : Leaf → Bool}
    (agree : ∀ test, fields.decides test = true → first test = second test) :
    (complement.holds first = true → filter.holds second = false) ↔
      ¬Misjudged fields second true filter := by
  rw [holds_complement_congr found agree, holds_complement second found, misjudged_true_iff,
    holds_relax_split]
  cases matching : filter.holds second with
  | false => simp
  | true =>
      have tenants : (filter.tenantClauses fields).all (holds second) = true := by
        rw [← holds_clauses, List.all_eq_true] at matching
        rw [List.all_eq_true]
        exact fun clause present => matching clause (List.takeWhile_subset _ present)
      rw [tenants]
      simp

theorem complement_avoids_event_of_project :
    let fields : Fields := ⟨Table.standard, []⟩
    let project := leaf (.term (some "project") "p1")
    let filter := and [project, leaf (.term (some "status") "open"),
      leaf (.term (some "type") "error")]
    let complement := and [project, not (leaf (.term (some "status") "open"))]
    let first : Leaf → Bool := fun test => test.field? = some "project"
    let second : Leaf → Bool := fun test => first test || !fields.decides test
    filter.complement? fields = some complement ∧
      (∀ test, fields.decides test = true → first test = second test) ∧
      complement.holds first = true ∧ filter.holds second = false ∧
      ¬Misjudged fields second true filter := by
  intro fields project filter complement first second
  have found : filter.complement? fields = some complement := by cbv
  have agree : ∀ test, fields.decides test = true → first test = second test := by
    intro test known
    simp [second, known]
  have status : second (.term (some "status") "open") = false := by cbv
  have avoided : filter.holds second = false := by simp [filter, status]
  refine ⟨found, agree, ?_, avoided, ?_⟩
  · simp [complement, project, first, Leaf.field?]
  · exact (complement_avoids_iff found agree).mp fun _ => avoided

theorem complement_admits_match :
    let project := leaf (.term (some "project") "p1")
    let filter := and [project, not (group (and
      [leaf (.term (some "type") "error"), leaf (.term (some "tag") "x")]))]
    let valuation : Leaf → Bool := fun test => test.field? = some "project"
    filter.complement? ⟨Table.standard, []⟩ = some project ∧
      project.holds valuation = true ∧ filter.holds valuation = true := by
  intro project filter valuation
  refine ⟨by cbv, ?_, ?_⟩
  · simp [project, valuation, Leaf.field?]
  · simp [filter, project, valuation, Leaf.field?]

end ScopedFilter.Filter
