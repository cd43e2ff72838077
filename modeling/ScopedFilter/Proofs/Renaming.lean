import Mathlib
import ScopedFilter.Context.Registry
import ScopedFilter.Proofs.Reduced

/-!
The names of a field are interchangeable. Reduction and complement look at the entry that a field
leads to and at nothing else of its name, and in the store's names the difference is gone. Main
statement: `renamed_queries_eq`.
-/

namespace ScopedFilter

/-- One test in the place of another: the same one, or a test that the store decides under another
name of its field. -/
inductive Fields.Renamed (fields : Fields) : Leaf → Leaf → Prop
  | same (test) : Renamed fields test test
  | other {test name other} : test.field? = some name → fields.decides test = true →
      fields.lookup? other = fields.lookup? name → Renamed fields test (test.withField other)

namespace Fields.Renamed

variable {fields : Fields} {left right : Leaf}

theorem entry_eq (renamed : fields.Renamed left right) :
    left.field?.bind fields.lookup? = right.field?.bind fields.lookup? := by
  cases renamed with
  | same => rfl
  | other named _ entry =>
      rw [named, Leaf.field?_withField, Option.bind_some, Option.bind_some]
      exact entry.symm

theorem scope_eq (renamed : fields.Renamed left right) :
    fields.scope left.field? = fields.scope right.field? := by
  rw [Fields.scope_eq, Fields.scope_eq, renamed.entry_eq]

theorem decides_eq (renamed : fields.Renamed left right) :
    fields.decides left = fields.decides right := by
  rw [decides, decides, renamed.scope_eq]

theorem isTenant_eq (renamed : fields.Renamed left right) :
    fields.isTenant left = fields.isTenant right := by
  rw [isTenant, isTenant, renamed.scope_eq]

theorem storeLeaf_eq (renamed : fields.Renamed left right) :
    fields.storeLeaf left = fields.storeLeaf right := by
  have entry := renamed.entry_eq
  cases renamed with
  | same => rfl
  | other named decided _ =>
      rw [storeLeaf, storeLeaf, ← entry]
      cases found : left.field?.bind fields.lookup? with
      | none => simp [decides, Fields.scope_eq, found, Scope.decidable] at decided
      | some entry => simp

end Fields.Renamed

namespace Filter

/-- Filters of one shape whose tests are related one by one. -/
inductive Alike (related : Leaf → Leaf → Prop) : Filter → Filter → Prop
  | leaf {left right} : related left right → Alike related (leaf left) (leaf right)
  | not {left right} : Alike related left right → Alike related (not left) (not right)
  | and {lefts rights} : List.Forall₂ (Alike related) lefts rights →
      Alike related (and lefts) (and rights)
  | or {lefts rights} : List.Forall₂ (Alike related) lefts rights →
      Alike related (or lefts) (or rights)
  | group {left right} : Alike related left right → Alike related (group left) (group right)
  | all : Alike related all all
  | none : Alike related none none

section Lists

variable {α β : Type} {relation : α → α → Prop} {lefts rights : List α}

theorem map_eq_of_forall₂ {change : α → β}
    (same : List.Forall₂ (fun left right => change left = change right) lefts rights) :
    lefts.map change = rights.map change := by
  rw [← List.forall₂_eq_eq_eq, List.forall₂_map_left_iff, List.forall₂_map_right_iff]
  exact same

variable {passes : α → Bool}

theorem any_eq_of_forall₂
    (same : List.Forall₂ (fun left right => passes left = passes right) lefts rights) :
    lefts.any passes = rights.any passes := by
  have outcomes := congrArg (List.any · id) (map_eq_of_forall₂ same)
  simpa using outcomes

theorem all_eq_of_forall₂
    (same : List.Forall₂ (fun left right => passes left = passes right) lefts rights) :
    lefts.all passes = rights.all passes := by
  have outcomes := congrArg (List.all · id) (map_eq_of_forall₂ same)
  simpa using outcomes

theorem forall₂_takeWhile (related : List.Forall₂ relation lefts rights)
    (same : ∀ left right, relation left right → passes left = passes right) :
    List.Forall₂ relation (lefts.takeWhile passes) (rights.takeWhile passes) := by
  induction related with
  | nil => exact .nil
  | @cons left right _ _ first _ ih =>
      rw [List.takeWhile_cons, List.takeWhile_cons, same left right first]
      by_cases passing : passes right = true
      · simpa [passing] using ⟨first, ih⟩
      · simp [passing]

theorem forall₂_dropWhile (related : List.Forall₂ relation lefts rights)
    (same : ∀ left right, relation left right → passes left = passes right) :
    List.Forall₂ relation (lefts.dropWhile passes) (rights.dropWhile passes) := by
  induction related with
  | nil => exact .nil
  | @cons left right _ _ first rest ih =>
      rw [List.dropWhile_cons, List.dropWhile_cons, same left right first]
      by_cases passing : passes right = true
      · simpa [passing] using ih
      · simpa [passing] using ⟨first, rest⟩

end Lists

namespace Alike

variable {related : Leaf → Leaf → Prop} {left right : Filter} {lefts rights : List Filter}

/-- Induction that hands every pair of members its hypothesis. -/
@[elab_as_elim, induction_eliminator]
theorem induction {motive : ∀ left right, Alike related left right → Prop}
    (leaf : ∀ {left right} (known : related left right), motive _ _ (.leaf known))
    (not : ∀ {left right} (inner : Alike related left right), motive left right inner →
      motive _ _ (.not inner))
    (and : ∀ {lefts rights} (members : List.Forall₂ (Alike related) lefts rights),
      List.Forall₂ (fun left right => ∃ alike, motive left right alike) lefts rights →
        motive _ _ (.and members))
    (or : ∀ {lefts rights} (members : List.Forall₂ (Alike related) lefts rights),
      List.Forall₂ (fun left right => ∃ alike, motive left right alike) lefts rights →
        motive _ _ (.or members))
    (group : ∀ {left right} (inner : Alike related left right), motive left right inner →
      motive _ _ (.group inner))
    (all : motive _ _ .all) (none : motive _ _ .none)
    (alike : Alike related left right) : motive left right alike := by
  induction left generalizing right with
  | leaf test =>
      cases alike with
      | leaf known => exact leaf known
  | not child ih =>
      cases alike with
      | not inner => exact not inner (ih inner)
  | and members ih =>
      cases alike with
      | and known =>
          apply and known
          have each := (List.forall₂_and_left _ _).mpr ⟨ih, known⟩
          exact each.imp fun _ _ pair => ⟨pair.2, pair.1 pair.2⟩
  | or members ih =>
      cases alike with
      | or known =>
          apply or known
          have each := (List.forall₂_and_left _ _).mpr ⟨ih, known⟩
          exact each.imp fun _ _ pair => ⟨pair.2, pair.1 pair.2⟩
  | group child ih =>
      cases alike with
      | group inner => exact group inner (ih inner)
  | all =>
      cases alike
      exact all
  | none =>
      cases alike
      exact none

theorem mapLeaves_eq {change : Leaf → Leaf}
    (same : ∀ left right, related left right → change left = change right)
    (alike : Alike related left right) : left.mapLeaves change = right.mapLeaves change := by
  induction alike with
  | leaf known => rw [mapLeaves, mapLeaves, same _ _ known]
  | not _ ih => rw [mapLeaves, mapLeaves, ih]
  | and _ each | or _ each =>
      have members := map_eq_of_forall₂ (each.imp fun _ _ pair => pair.snd)
      rw [mapLeaves, mapLeaves, members]
  | group _ ih => rw [mapLeaves, mapLeaves, ih]
  | all => rfl
  | none => rfl

theorem leaves (alike : Alike related left right) :
    List.Forall₂ related left.leaves right.leaves := by
  induction alike with
  | leaf known => simpa [Filter.leaves] using known
  | not _ ih => simpa [Filter.leaves] using ih
  | and _ each | or _ each =>
      rw [Filter.leaves, Filter.leaves]
      exact List.rel_flatMap each fun _ _ pair => pair.snd
  | group _ ih => simpa [Filter.leaves] using ih
  | all => simp [Filter.leaves]
  | none => simp [Filter.leaves]

theorem isAll_eq (alike : Alike related left right) : left.isAll = right.isAll := by
  cases alike <;> rfl

theorem isNone_eq (alike : Alike related left right) : left.isNone = right.isNone := by
  cases alike <;> rfl

theorem isJoin_eq (alike : Alike related left right) : left.isJoin = right.isJoin := by
  cases alike <;> rfl

section Constructors

theorem joined {join : List Filter → Filter} {empty : Filter}
    (join_alike : ∀ {lefts rights}, List.Forall₂ (Alike related) lefts rights →
      Alike related (join lefts) (join rights))
    (empty_alike : Alike related empty empty) (alike : List.Forall₂ (Alike related) lefts rights) :
    Alike related (Filter.joined join empty lefts) (Filter.joined join empty rights) := by
  cases alike with
  | nil => exact empty_alike
  | cons first rest =>
      cases rest with
      | nil => exact first
      | cons second more => exact join_alike (.cons first (.cons second more))

theorem filter {passes : Filter → Bool}
    (same : ∀ left right, Alike related left right → passes left = passes right)
    (alike : List.Forall₂ (Alike related) lefts rights) :
    List.Forall₂ (Alike related) (lefts.filter passes) (rights.filter passes) :=
  List.rel_filter (fun _ _ known => iff_of_eq (congrArg (· = true) (same _ _ known))) alike

theorem conj (alike : List.Forall₂ (Alike related) lefts rights) :
    Alike related (Filter.conj lefts) (Filter.conj rights) := by
  unfold Filter.conj
  rw [any_eq_of_forall₂ (alike.imp fun _ _ => isNone_eq)]
  split
  · exact .none
  · exact joined .and .all (filter (fun _ _ known => congrArg _ known.isAll_eq) alike)

theorem disj (alike : List.Forall₂ (Alike related) lefts rights) :
    Alike related (Filter.disj lefts) (Filter.disj rights) := by
  unfold Filter.disj
  rw [any_eq_of_forall₂ (alike.imp fun _ _ => isAll_eq)]
  split
  · exact .all
  · exact joined .or .none (filter (fun _ _ known => congrArg _ known.isNone_eq) alike)

theorem negate (alike : Alike related left right) :
    Alike related left.negate right.negate := by
  cases alike with
  | leaf known => exact .not (.leaf known)
  | not inner => exact inner
  | and known => exact .not (.and known)
  | or known => exact .not (.or known)
  | group inner => exact .not (.group inner)
  | all => exact .none
  | none => exact .all

theorem regrouped (alike : Alike related left right) :
    Alike related left.regrouped right.regrouped := by
  rw [Filter.regrouped, Filter.regrouped, alike.isJoin_eq]
  split
  · exact .group alike
  · exact alike

theorem ungrouped (alike : Alike related left right) :
    Alike related left.ungrouped right.ungrouped := by
  induction alike with
  | leaf known => exact .leaf known
  | not inner _ => exact .not inner
  | and members _ => exact .and members
  | or members _ => exact .or members
  | group _ ih =>
      rw [Filter.ungrouped, Filter.ungrouped]
      exact ih
  | all => exact .all
  | none => exact .none

theorem conjuncts (alike : Alike related left right) :
    List.Forall₂ (Alike related) left.conjuncts right.conjuncts := by
  have alone := List.Forall₂.cons alike .nil
  cases alike with
  | and known => exact known
  | _ => exact alone

theorem clauses (alike : Alike related left right) :
    List.Forall₂ (Alike related) left.clauses right.clauses :=
  alike.ungrouped.conjuncts

end Constructors

end Alike

section Parts

variable {related : Leaf → Leaf → Prop} {left right : Option Filter}

theorem isSome_eq_of_rel (parts : Option.Rel (Alike related) left right) :
    left.isSome = right.isSome := by
  cases parts <;> rfl

theorem rel_map {change : Filter → Filter}
    (keeps : ∀ left right, Alike related left right → Alike related (change left) (change right))
    (parts : Option.Rel (Alike related) left right) :
    Option.Rel (Alike related) (left.map change) (right.map change) := by
  cases parts with
  | none => exact .none
  | some known => exact .some (keeps _ _ known)

end Parts

section Tenants

variable {fields : Fields} {related : Leaf → Leaf → Prop} {left right : Filter}

theorem isTenantClause_eq_of_alike
    (same : ∀ left right, related left right → fields.isTenant left = fields.isTenant right)
    (alike : Alike related left right) :
    left.isTenantClause fields = right.isTenantClause fields := by
  induction alike with
  | leaf known => rw [isTenantClause, isTenantClause, same _ _ known]
  | and _ each =>
      have members := map_eq_of_forall₂ (each.imp fun _ _ pair => pair.snd)
      rw [isTenantClause, isTenantClause, members]
  | group _ ih => rw [isTenantClause, isTenantClause, ih]
  | _ => simp [isTenantClause]

theorem otherClauses_alike
    (same : ∀ left right, related left right → fields.isTenant left = fields.isTenant right)
    (alike : Alike related left right) :
    List.Forall₂ (Alike related) (left.otherClauses fields) (right.otherClauses fields) :=
  forall₂_dropWhile alike.clauses fun _ _ => isTenantClause_eq_of_alike same

theorem any_mentionsTenant_eq_of_alike
    (same : ∀ left right, related left right → fields.isTenant left = fields.isTenant right)
    (alike : Alike related left right) :
    (left.otherClauses fields).any (mentionsTenant fields) =
      (right.otherClauses fields).any (mentionsTenant fields) := by
  refine any_eq_of_forall₂ ((otherClauses_alike same alike).imp fun _ _ known => ?_)
  rw [mentionsTenant_eq, mentionsTenant_eq]
  exact any_eq_of_forall₂ (known.leaves.imp same)

theorem isSome_complement?_eq_of_alike
    (same : ∀ left right, related left right → fields.isTenant left = fields.isTenant right)
    (alike : Alike related left right) :
    (left.complement? fields).isSome = (right.complement? fields).isSome := by
  rw [complement?, complement?]
  simp only [any_mentionsTenant_eq_of_alike same alike]
  cases (right.otherClauses fields).any (mentionsTenant fields) <;> rfl

end Tenants

section Renamed

variable {fields : Fields} {left right : Filter}

theorem reduce_alike (alike : Alike fields.Renamed left right) :
    Option.Rel (Alike fields.Renamed) (left.reduce fields) (right.reduce fields) := by
  induction alike with
  | @leaf _ other known =>
      rw [reduce, reduce, known.decides_eq]
      by_cases decided : fields.decides other = true
      · simpa [decided] using Option.Rel.some (Alike.leaf known)
      · simp [decided]
  | not _ ih =>
      rw [reduce, reduce]
      exact rel_map (fun _ _ => Alike.negate) ih
  | and _ each =>
      rw [reduce, reduce]
      exact .some (.conj (List.rel_filterMap (fun _ _ pair => pair.snd) each))
  | @or lefts rights _ each =>
      have parts : List.Forall₂ (Option.Rel (Alike fields.Renamed))
          (lefts.map (reduce fields)) (rights.map (reduce fields)) := by
        rw [List.forall₂_map_left_iff, List.forall₂_map_right_iff]
        exact each.imp fun _ _ pair => pair.snd
      have decided := all_eq_of_forall₂ (parts.imp fun _ _ => isSome_eq_of_rel)
      rw [reduce, reduce]
      simp only [decided]
      by_cases known : (rights.map (reduce fields)).all Option.isSome = true
      · simp only [known, cond_true]
        exact .some (.disj (List.rel_filterMap (fun _ _ part => part) parts))
      · simp only [known, cond_false]
        exact .none
  | group _ ih =>
      rw [reduce, reduce]
      exact rel_map (fun _ _ => Alike.regrouped) ih
  | all =>
      rw [reduce]
      exact .some .all
  | none =>
      rw [reduce]
      exact .some .none

theorem relax_alike (alike : Alike fields.Renamed left right) :
    Alike fields.Renamed (left.relax fields) (right.relax fields) := by
  have parts := reduce_alike alike
  rw [relax, relax]
  generalize left.reduce fields = first at parts
  generalize right.reduce fields = second at parts
  cases parts with
  | none => exact .all
  | some known => exact known

theorem complement?_alike (alike : Alike fields.Renamed left right) :
    Option.Rel (Alike fields.Renamed) (left.complement? fields) (right.complement? fields) := by
  have same : ∀ left right, fields.Renamed left right →
      fields.isTenant left = fields.isTenant right := fun _ _ known => known.isTenant_eq
  have lead : List.Forall₂ (Alike fields.Renamed) (left.tenantClauses fields)
      (right.tenantClauses fields) :=
    forall₂_takeWhile alike.clauses fun _ _ => isTenantClause_eq_of_alike same
  have others := otherClauses_alike same alike
  have mentions := any_mentionsTenant_eq_of_alike same alike
  have negated := (relax_alike (Alike.joined .and .all others)).negate
  rw [complement?, complement?]
  simp only [mentions]
  by_cases mentioned : (right.otherClauses fields).any (mentionsTenant fields) = true
  · simp only [mentioned, cond_true]
    exact .none
  · simp only [mentioned, cond_false]
    exact .some (.conj (List.rel_append lead (.cons negated .nil)))

theorem inStore_eq_of_alike (alike : Alike fields.Renamed left right) :
    left.inStore fields = right.inStore fields :=
  alike.mapLeaves_eq fun _ _ => Fields.Renamed.storeLeaf_eq

theorem map_inStore_complement? (alike : Alike fields.Renamed left right) :
    (left.complement? fields).map (inStore fields) =
      (right.complement? fields).map (inStore fields) := by
  have parts := complement?_alike alike
  generalize left.complement? fields = first at parts ⊢
  generalize right.complement? fields = second at parts ⊢
  cases parts with
  | none => rfl
  | some known => rw [Option.map_some, Option.map_some, inStore_eq_of_alike known]

theorem answer_eq_of_alike {sentinels : Sentinels} (alike : Alike fields.Renamed left right)
    (mode : Mode) :
    Engine.answer { fields, sentinels } left mode =
      Engine.answer { fields, sentinels } right mode := by
  have relaxed := inStore_eq_of_alike (relax_alike alike)
  have complements := map_inStore_complement? alike
  have written (filter : Filter) :
      (filter.complement? fields).map (Engine.queryText { fields, sentinels }) =
        ((filter.complement? fields).map (inStore fields)).map (·.toText sentinels) := by
    rw [Option.map_map]
    rfl
  have invertible := isSome_eq_of_rel (complement?_alike alike)
  simp only [Engine.answer, written, complements, invertible]
  simp only [Engine.queryText, relaxed]

/-- Filters that name the same fields differently become the same queries. -/
theorem renamed_queries_eq (alike : Alike fields.Renamed left right) :
    (left.relax fields).inStore fields = (right.relax fields).inStore fields ∧
      (left.complement? fields).isSome = (right.complement? fields).isSome ∧
      (left.complement? fields).map (inStore fields) =
        (right.complement? fields).map (inStore fields) ∧
      ∀ leftText rightText mode, Filter.parse leftText = .ok left →
        Filter.parse rightText = .ok right →
        (∀ sentinels, Engine.run { fields, sentinels } leftText mode =
          Engine.run { fields, sentinels } rightText mode) ∧
        ∀ registry context, (Registry.prepare registry context).2.fields context = fields →
          registry.run context leftText mode = registry.run context rightText mode := by
  refine ⟨inStore_eq_of_alike (relax_alike alike), isSome_eq_of_rel (complement?_alike alike),
    map_inStore_complement? alike, ?_⟩
  intro leftText rightText mode leftParsed rightParsed
  have runs (sentinels : Sentinels) : Engine.run { fields, sentinels } leftText mode =
      Engine.run { fields, sentinels } rightText mode := by
    rw [Engine.run, Engine.run, leftParsed, rightParsed]
    exact congrArg Except.ok (answer_eq_of_alike alike mode)
  refine ⟨runs, ?_⟩
  intro registry context snapshot
  rw [Registry.run_eq, Registry.run_eq, snapshot, runs]

theorem renamed_queries_eq_state :
    let fields : Fields := ⟨Table.standard, [("state", "status")]⟩
    let leftText := "project:p1 state:open type:error"
    let rightText := "project_id:p1 status:open type:error"
    let registry : Registry := { families := [Family.ofAliases fields.aliases] }
    ∀ mode, Engine.run { fields } leftText mode = Engine.run { fields } rightText mode ∧
      registry.run ⟨fields.table, 0⟩ leftText mode =
        registry.run ⟨fields.table, 0⟩ rightText mode := by
  intro fields leftText rightText registry mode
  have renamed (name other value : String)
      (decided : fields.decides (.term (some name) value) = true)
      (entry : fields.lookup? other = fields.lookup? name) :
      Alike fields.Renamed (leaf (.term (some name) value)) (leaf (.term (some other) value)) :=
    .leaf (.other rfl decided entry)
  have project := renamed "project" "project_id" "p1" (by cbv) (by cbv)
  have state := renamed "state" "status" "open" (by cbv) (by cbv)
  have type : fields.Renamed (.term (some "type") "error") (.term (some "type") "error") := .same _
  have alike := Alike.and (.cons project (.cons state (.cons (.leaf type) .nil)))
  obtain ⟨-, -, -, queries⟩ := renamed_queries_eq alike
  obtain ⟨runs, registered⟩ := queries leftText rightText mode (by cbv) (by cbv)
  exact ⟨runs Sentinels.standard, registered registry ⟨fields.table, 0⟩ rfl⟩

end Renamed

end Filter

end ScopedFilter
