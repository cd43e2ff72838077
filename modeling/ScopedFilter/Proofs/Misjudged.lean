import ScopedFilter.Proofs.Verdict

/-!
When a relaxed filter loses a match. It does so exactly if a conjunction below an odd number of
negations goes on without a member that fails, and nothing on the way up makes good for that. Main
statement: `relax_admits_iff`; `relax_loses_match` shows a filter that this happens to.
-/

namespace ScopedFilter.Filter

/-- The filter is in truth `truth`, but its verdict says the opposite. The first rule is where this
begins, the others are how it spreads to what encloses the filter. -/
inductive Misjudged (fields : Fields) (valuation : Leaf → Bool) : Bool → Filter → Prop
  | dropped {member members} : member ∈ members →
      member.verdict fields valuation = Option.none → member.holds valuation = false →
      (∀ other ∈ members, other.verdict fields valuation ≠ some false) →
      Misjudged fields valuation false (and members)
  | conjunctFails {member members} : member ∈ members → Misjudged fields valuation false member →
      (∀ other ∈ members, other.verdict fields valuation ≠ some false) →
      Misjudged fields valuation false (and members)
  | conjunctHolds {member members} : member ∈ members → Misjudged fields valuation true member →
      (∀ other ∈ members, other.holds valuation = true) →
      Misjudged fields valuation true (and members)
  | disjunctFails {member members} : member ∈ members → Misjudged fields valuation false member →
      (∀ other ∈ members, other.holds valuation = false ∧
        other.verdict fields valuation ≠ Option.none) →
      Misjudged fields valuation false (or members)
  | disjunctHolds {member members} : member ∈ members → Misjudged fields valuation true member →
      (∀ other ∈ members, other.verdict fields valuation = some false) →
      Misjudged fields valuation true (or members)
  | not {truth child} : Misjudged fields valuation (!truth) child →
      Misjudged fields valuation truth (not child)
  | group {truth child} : Misjudged fields valuation truth child →
      Misjudged fields valuation truth (group child)

variable {fields : Fields} {valuation : Leaf → Bool}

theorem Misjudged.sound {truth : Bool} {filter : Filter}
    (misjudged : Misjudged fields valuation truth filter) :
    filter.holds valuation = truth ∧ filter.verdict fields valuation = some (!truth) := by
  induction misjudged with
  | dropped present _ fails unseen =>
      rw [holds_and, List.all_eq_false, Bool.not_false, verdict_and_eq_true_iff]
      exact ⟨⟨_, present, by simp [fails]⟩, unseen⟩
  | conjunctFails present _ unseen ih =>
      rw [holds_and, List.all_eq_false, Bool.not_false, verdict_and_eq_true_iff]
      exact ⟨⟨_, present, by simp [ih.1]⟩, unseen⟩
  | conjunctHolds present _ others ih =>
      rw [holds_and, List.all_eq_true, Bool.not_true, verdict_and_eq_false_iff]
      exact ⟨others, _, present, ih.2⟩
  | disjunctFails present _ others ih =>
      rw [holds_or, List.any_eq_false, Bool.not_false, verdict_or_eq_true_iff]
      refine ⟨fun other among => ?_, fun other among => (others other among).2, _, present, ih.2⟩
      simp [(others other among).1]
  | disjunctHolds present _ others ih =>
      rw [holds_or, List.any_eq_true, Bool.not_true, verdict_or_eq_false_iff]
      exact ⟨⟨_, present, ih.1⟩, others⟩
  | not _ ih =>
      rw [holds_not, verdict_not, ih.1, ih.2]
      simp
  | group _ ih =>
      rw [holds_group, verdict_group]
      exact ih

theorem Misjudged.complete {truth : Bool} {filter : Filter}
    (actual : filter.holds valuation = truth)
    (seen : filter.verdict fields valuation = some (!truth)) :
    Misjudged fields valuation truth filter := by
  induction filter generalizing truth with
  | leaf test =>
      rw [holds_leaf] at actual
      rw [verdict_leaf, actual] at seen
      cases known : fields.decides test <;> simp [known] at seen
  | not child ih =>
      rw [holds_not] at actual
      rw [verdict_not] at seen
      refine .not (ih (by simp [← actual]) ?_)
      rcases part : child.verdict fields valuation with _ | _ | _ <;> simp_all
  | and members ih =>
      rw [holds_and] at actual
      cases truth with
      | false =>
          rw [Bool.not_false, verdict_and_eq_true_iff] at seen
          rw [List.all_eq_false] at actual
          obtain ⟨member, present, fails⟩ := actual
          rw [Bool.not_eq_true] at fails
          rcases part : member.verdict fields valuation with _ | _ | _
          · exact .dropped present part fails seen
          · exact absurd part (seen member present)
          · exact .conjunctFails present (ih member present fails part) seen
      | true =>
          rw [Bool.not_true, verdict_and_eq_false_iff] at seen
          rw [List.all_eq_true] at actual
          obtain ⟨member, present, part⟩ := seen
          exact .conjunctHolds present (ih member present (actual member present) part) actual
  | or members ih =>
      rw [holds_or] at actual
      cases truth with
      | false =>
          rw [Bool.not_false, verdict_or_eq_true_iff] at seen
          rw [List.any_eq_false] at actual
          have fails : ∀ other ∈ members, other.holds valuation = false :=
            fun other among => Bool.not_eq_true _ ▸ actual other among
          obtain ⟨decided, member, present, part⟩ := seen
          exact .disjunctFails present (ih member present (fails member present) part)
            fun other among => ⟨fails other among, decided other among⟩
      | true =>
          rw [Bool.not_true, verdict_or_eq_false_iff] at seen
          rw [List.any_eq_true] at actual
          obtain ⟨member, present, holding⟩ := actual
          exact .disjunctHolds present (ih member present holding (seen member present)) seen
  | group child ih =>
      rw [holds_group] at actual
      rw [verdict_group] at seen
      exact .group (ih actual seen)
  | all =>
      rw [holds_all] at actual
      rw [verdict_all, ← actual] at seen
      simp at seen
  | none =>
      rw [holds_none] at actual
      rw [verdict_none, ← actual] at seen
      simp at seen

theorem misjudged_iff {truth : Bool} {filter : Filter} :
    Misjudged fields valuation truth filter ↔
      filter.holds valuation = truth ∧ filter.verdict fields valuation = some (!truth) :=
  ⟨Misjudged.sound, fun ⟨actual, seen⟩ => .complete actual seen⟩

theorem misjudged_true_iff {filter : Filter} :
    Misjudged fields valuation true filter ↔
      filter.holds valuation = true ∧ (filter.relax fields).holds valuation = false := by
  rw [misjudged_iff, holds_relax, Bool.not_true]
  refine and_congr_right fun _ => ?_
  rcases filter.verdict fields valuation with _ | _ | _ <;> simp

/-- Relaxing loses a match just where the filter is misjudged. -/
theorem relax_admits_iff (fields : Fields) (filter : Filter) (valuation : Leaf → Bool) :
    (filter.holds valuation = true → (filter.relax fields).holds valuation = true) ↔
      ¬Misjudged fields valuation true filter := by
  rw [misjudged_true_iff, not_and, Bool.not_eq_false]

theorem relax_loses_match :
    let filter := not (group (and
      [leaf (.term (some "type") "error"), leaf (.term (some "tag") "x")]))
    filter.holds (fun _ => false) = true ∧
      (filter.relax ⟨Table.standard, []⟩).holds (fun _ => false) = false := by
  intro filter
  have type : Fields.decides ⟨Table.standard, []⟩ (.term (some "type") "error") = false := by decide
  have tag : Fields.decides ⟨Table.standard, []⟩ (.term (some "tag") "x") = false := by decide
  refine ⟨by simp [filter], ?_⟩
  rw [holds_relax]
  simp [filter, verdict_and, type, tag]

end ScopedFilter.Filter
