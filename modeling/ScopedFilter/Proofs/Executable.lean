import Mathlib
import ScopedFilter.Proofs.Reduced
import ScopedFilter.Proofs.RoundTrip
import ScopedFilter.Stack.Answer

/-!
Whether the query in an answer can be read. Nothing but its depth can prevent that: a query for the
candidates nests no deeper than the filter it comes from, and its complement at most two deeper.
Main statement: `parse_executable_iff`.
-/

namespace ScopedFilter

/-- The stack store has a name for every field of the table. -/
def Table.Named (table : Table) : Prop := ∀ row ∈ table.rows, row.2.storeField ≠ ""

theorem Table.named_standard : Table.standard.Named := by
  unfold Named
  decide

theorem Table.Named.storeField_ne {table : Table} (named : table.Named) {name : String}
    {entry : Entry} (found : table.lookup? name = some entry) : entry.storeField ≠ "" := by
  obtain ⟨before, after, rows, _⟩ := List.lookup_eq_some_iff.mp found
  exact named (name, entry) (by simp [rows])

theorem Fields.field?_storeLeaf_ne {fields : Fields} (named : fields.table.Named) {test : Leaf}
    (fielded : test.field? ≠ some "") : (fields.storeLeaf test).field? ≠ some "" := by
  rw [storeLeaf]
  split
  · rename_i entry found
    obtain ⟨name, _, known⟩ := Option.bind_eq_some_iff.mp found
    rw [Leaf.field?_withField, ne_eq, Option.some.injEq]
    exact named.storeField_ne known
  · exact fielded

namespace Filter

theorem Named.of_leaves_sublist {part filter : Filter} (named : filter.Named)
    (leaves : part.leaves.Sublist filter.leaves) : part.Named :=
  fun test known => named test (leaves.subset known)

theorem Named.inStore {fields : Fields} (table : fields.table.Named) {filter : Filter}
    (named : filter.Named) : (filter.inStore fields).Named := by
  rw [Named, Filter.inStore, leaves_mapLeaves, List.forall_mem_map]
  exact fun test known => Fields.field?_storeLeaf_ne table (named test known)

def asked? (fields : Fields) (filter : Filter) : Mode → Option Filter
  | .candidates => some (filter.relax fields)
  | .excluded => filter.complement? fields

theorem leaves_asked_sublist {fields : Fields} {filter query : Filter} {mode : Mode}
    (asked : filter.asked? fields mode = some query) : query.leaves.Sublist filter.leaves := by
  cases mode with
  | candidates =>
      cases asked
      exact leaves_relax_sublist filter
  | excluded => exact leaves_complement_sublist asked

end Filter

namespace Engine

theorem executable?_answer (engine : Engine) (filter : Filter) (mode : Mode) :
    (engine.answer filter mode).executable? =
      (filter.asked? engine.fields mode).map engine.queryText := by
  cases mode with
  | candidates => rfl
  | excluded =>
      simp only [answer, Answer.executable?, Filter.asked?]
      cases filter.complement? engine.fields <;> simp

theorem run_eq_ok_iff {engine : Engine} {text : String} {mode : Mode} {answer : Answer} :
    engine.run text mode = .ok answer ↔
      ∃ filter, Filter.parse text = .ok filter ∧ answer = engine.answer filter mode := by
  rw [run]
  cases Filter.parse text <;> simp [eq_comm]

theorem parse_queryText_iff {filter : Filter} (named : filter.Named) :
    (∃ again, Filter.parse (standard.queryText filter) = .ok again) ↔
      filter.nesting < Reading.maxNesting := by
  have stored : (filter.inStore standard.fields).Named := named.inStore Table.named_standard
  change (∃ again, Filter.parse ((filter.inStore standard.fields).toText .standard) = .ok again) ↔ _
  simp only [Filter.parse_toText_iff stored, exists_and_left, exists_eq, and_true]
  rw [Filter.inStore, Filter.nesting_mapLeaves]

/-- A query in an answer can be read, unless it is a complement that nests too deep. It cannot
nest too deep if the filter leaves room for two more levels. -/
theorem parse_executable_iff {text query : String} {mode : Mode} {answer : Answer} {filter : Filter}
    (parsed : Filter.parse text = .ok filter) (answered : standard.run text mode = .ok answer)
    (executable : answer.executable? = some query) :
    ((∃ again, Filter.parse query = .ok again) ↔
      (mode = .excluded → ∀ complement, filter.complement? standard.fields = some complement →
        complement.nesting < Reading.maxNesting)) ∧
      (filter.nesting + 2 < Reading.maxNesting → ∃ again, Filter.parse query = .ok again) := by
  have known := Filter.parsed_of_parse parsed
  rw [run, parsed, Except.ok.injEq] at answered
  rw [← answered, executable?_answer, Option.map_eq_some_iff] at executable
  obtain ⟨asked, found, rfl⟩ := executable
  rw [parse_queryText_iff (known.named.of_leaves_sublist (Filter.leaves_asked_sublist found))]
  cases mode with
  | candidates =>
      cases found
      have shallow : (filter.relax standard.fields).nesting < Reading.maxNesting :=
        Nat.lt_of_le_of_lt (Filter.noDeeper_relax filter).alone known.shallow
      exact ⟨iff_of_true shallow nofun, fun _ => shallow⟩
  | excluded =>
      have complement : filter.complement? standard.fields = some asked := found
      refine ⟨by simp [complement], fun room => ?_⟩
      exact Nat.lt_of_le_of_lt (Filter.nesting_complement_le complement) room

theorem parse_executable_project :
    let text := "project:p1 -(first:>=5) type:x"
    let query := "project_id:p1 AND first_occurrence:[5 TO *]"
    let filter := Filter.and [.leaf (.term (some "project") "p1"),
      .not (.group (.leaf (.range "first" "5" "*" ⟨true, true⟩))),
      .leaf (.term (some "type") "x")]
    let answer : Answer := ⟨query, true, .excluded⟩
    Filter.parse text = .ok filter ∧ standard.run text .excluded = .ok answer ∧
      answer.executable? = some query ∧ ∃ again, Filter.parse query = .ok again := by
  intro text query filter answer
  have parsed : Filter.parse text = .ok filter := by cbv
  have answered : standard.run text .excluded = .ok answer :=
    run_eq_ok_iff.mpr ⟨filter, parsed, by cbv⟩
  have executable : answer.executable? = some query := rfl
  have shallow : filter.nesting + 2 < Reading.maxNesting := by
    simp [filter, Filter.nesting, Filter.deepest, Filter.isJoin, Filter.isOr, Reading.maxNesting]
  exact ⟨parsed, answered, executable,
    (parse_executable_iff parsed answered executable).2 shallow⟩

end Engine

namespace Filter

def alternating : Nat → Filter
  | 0 => and [leaf (.term (some "last") "1"), leaf (.term (some "last") "2")]
  | depth + 1 => and [leaf (.term (some "last") "1"), not (group (alternating depth))]

theorem isJoin_alternating (depth : Nat) : (alternating depth).isJoin = true := by
  cases depth <;> rfl

theorem canonical_alternating (depth : Nat) : Canonical (alternating depth) := by
  induction depth with
  | zero => exact .and (by simp) (by simp [isJoin]) (by simp [Canonical.leaf])
  | succ depth ih =>
      exact .and (by simp) (by simp [isJoin])
        (by simp [Canonical.leaf, Canonical.not rfl (.group ih)])

theorem nesting_alternating (depth : Nat) : (alternating depth).nesting = 2 * depth := by
  induction depth with
  | zero => simp [alternating, nesting, deepest, isOr]
  | succ depth ih =>
      simp [alternating, nesting, deepest, isOr, isJoin, ih]
      omega

theorem mem_leaves_alternating {depth : Nat} {test : Leaf}
    (known : test ∈ (alternating depth).leaves) :
    test = .term (some "last") "1" ∨ test = .term (some "last") "2" := by
  induction depth with
  | zero => simpa [alternating, leaves] using known
  | succ depth ih =>
      simp only [alternating, leaves, List.flatMap_cons, List.flatMap_nil, List.append_nil,
        List.singleton_append, List.mem_cons] at known
      exact known.elim .inl ih

theorem field?_of_mem_leaves_alternating {depth : Nat} {test : Leaf}
    (known : test ∈ (alternating depth).leaves) : test.field? = some "last" := by
  rcases mem_leaves_alternating known with rfl | rfl <;> rfl

theorem scope_last : Engine.standard.fields.scope (some "last") = .stackAttribute := by decide

theorem reduce_alternating (depth : Nat) :
    (alternating depth).reduce Engine.standard.fields = some (alternating depth) := by
  have decided (value : String) :
      Engine.standard.fields.decides (.term (some "last") value) = true := by
    rw [Fields.decides, Leaf.field?, scope_last]
    rfl
  induction depth with
  | zero => simp [alternating, reduce, decided, conj, isNone, isAll, joined]
  | succ depth ih =>
      have inner : (alternating depth).regrouped = group (alternating depth) := by
        rw [regrouped, isJoin_alternating, if_pos rfl]
      simp [alternating, reduce, decided, ih, inner, negate, conj, isNone, isAll, joined]

theorem isTenant_last (value : String) :
    Engine.standard.fields.isTenant (.term (some "last") value) = false := by
  rw [Fields.isTenant, Leaf.field?, scope_last]
  rfl

theorem complement?_alternating (depth : Nat) :
    (alternating depth).complement? Engine.standard.fields = some (not (alternating depth)) := by
  have free : ∀ test ∈ (alternating depth).leaves,
      Engine.standard.fields.isTenant test = false := by
    intro test known
    rcases mem_leaves_alternating known with rfl | rfl <;> exact isTenant_last _
  have other : ∀ clause ∈ (alternating depth).clauses,
      clause.isTenantClause Engine.standard.fields = false := by
    cases depth <;>
      simp [alternating, clauses, ungrouped, conjuncts, isTenantClause, isTenant_last]
  have whole : joined and all (alternating depth).clauses = alternating depth := by
    cases depth <;> rfl
  rw [complement?_of_untenanted free other, whole, relax, reduce_alternating]
  cases depth <;> rfl

theorem complement_too_deep :
    let text := (alternating 63).toText .standard
    Filter.parse text = .ok (alternating 63) ∧ ∃ answer query,
      Engine.standard.run text .excluded = .ok answer ∧ answer.executable? = some query ∧
        ∀ again, Filter.parse query ≠ .ok again := by
  intro text
  have named : (alternating 63).Named := by
    intro test known
    rw [field?_of_mem_leaves_alternating known]
    simp
  have same : (alternating 63).reread = alternating 63 := by
    rw [reread_eq_self_iff (canonical_alternating 63)]
    intro test known
    rcases mem_leaves_alternating known with rfl | rfl <;> simp [Leaf.readsBack_iff]
  have parsed : Filter.parse text = .ok (alternating 63) := by
    rw [parse_toText_iff named, nesting_alternating, same]
    exact ⟨by decide, rfl⟩
  have executable : (Engine.standard.answer (alternating 63) .excluded).executable? =
      some (Engine.standard.queryText (not (alternating 63))) := by
    rw [Engine.executable?_answer, asked?, complement?_alternating, Option.map_some]
  have deep : ¬(not (alternating 63)).nesting < Reading.maxNesting := by
    rw [nesting, nesting_alternating, isJoin_alternating]
    decide
  have negated : (not (alternating 63)).Named := by
    rw [Named, leaves]
    exact named
  refine ⟨parsed, _, _, Engine.run_eq_ok_iff.mpr ⟨_, parsed, rfl⟩, executable, fun again read => ?_⟩
  exact deep ((Engine.parse_queryText_iff negated).mp ⟨again, read⟩)

end Filter

end ScopedFilter
