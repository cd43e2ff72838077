import Mathlib
import ScopedFilter.Proofs.Executable
import ScopedFilter.Stack.Passes

/-!
How deep the recursions over a filter go. Reading limits the nesting of a filter, and between two
levels of nesting there is room for a disjunction and a conjunction only, so its height is limited
too. What the stack store is asked is hardly higher. Main statement: `parse_bounded`.
-/

namespace ScopedFilter.Filter

variable {fields : Fields} {filter part : Filter} {members : List Filter} {bound : Nat}

theorem Canonical.height_le (canonical : Canonical filter) :
    filter.height ≤ 3 * filter.nesting + 1 + filter.isJoin.toNat + filter.isOr.toNat := by
  induction canonical with
  | @not child single _ ih =>
      rw [single, isOr_eq_false_of_not_isJoin single] at ih
      rw [height, nesting, single]
      simp only [isJoin, isOr, Bool.toNat_false] at ih ⊢
      omega
  | @and members _ singles _ ih =>
      simp only [isJoin, isOr, Bool.toNat_false, Bool.toNat_true]
      refine height_le_succ_iff.mpr fun member (known : member ∈ members) => ?_
      have single := singles member known
      have low := ih member known
      have deeper := Nat.le_trans (nesting_le_nestingInAnd member) (nesting_le_of_mem_and known)
      rw [single, isOr_eq_false_of_not_isJoin single, Bool.toNat_false] at low
      omega
  | @or members _ shapes _ ih =>
      simp only [isJoin, isOr, Bool.toNat_true]
      refine height_le_succ_iff.mpr fun member (known : member ∈ members) => ?_
      have low := ih member known
      have deeper := nesting_le_of_mem_or known
      have join := member.isJoin.toNat_le
      rw [shapes member known, Bool.toNat_false] at low
      omega
  | @group child _ ih =>
      have join := child.isJoin.toNat_le
      have or := child.isOr.toNat_le
      rw [height, nesting]
      simp only [isJoin, isOr, Bool.toNat_false]
      omega
  | leaf => simp only [height, nesting, isJoin, isOr, Bool.toNat_false, Nat.le_refl]
  | all => simp only [height, nesting, isJoin, isOr, Bool.toNat_false, Nat.le_refl]

section Rewritten

theorem height_all_le (filter : Filter) : all.height ≤ filter.height := by
  rw [height]
  exact filter.height_pos

theorem height_joined_le {join : List Filter → Filter} {empty : Filter}
    (below : ∀ members, (join members).children = members) (nothing : empty.children = [])
    (each : ∀ member ∈ members, member.height ≤ bound) :
    (joined join empty members).height ≤ bound + 1 := by
  rcases members with _ | ⟨first, _ | ⟨second, rest⟩⟩
  · exact height_le_succ_iff.mpr (by simp [joined, nothing])
  · exact Nat.le_succ_of_le (each first (by simp))
  · exact height_le_succ_iff.mpr (by simpa [joined, below] using each)

theorem height_conj_le (each : ∀ member ∈ members, member.height ≤ bound) :
    (conj members).height ≤ bound + 1 := by
  unfold conj
  split
  · exact height_le_succ_iff.mpr nofun
  · refine height_joined_le (fun _ => rfl) rfl fun member known => ?_
    exact each member (List.mem_of_mem_filter known)

theorem height_disj_le (each : ∀ member ∈ members, member.height ≤ bound) :
    (disj members).height ≤ bound + 1 := by
  unfold disj
  split
  · exact height_le_succ_iff.mpr nofun
  · refine height_joined_le (fun _ => rfl) rfl fun member known => ?_
    exact each member (List.mem_of_mem_filter known)

theorem height_negate_le (filter : Filter) : filter.negate.height ≤ filter.height + 1 := by
  cases filter <;> simp only [negate, height] <;> omega

theorem height_regrouped_le (filter : Filter) : filter.regrouped.height ≤ filter.height + 1 := by
  unfold regrouped
  split
  · rw [height]
  · exact Nat.le_succ _

theorem height_reduce_le (reduced : filter.reduce fields = some part) :
    part.height ≤ filter.height := by
  have parts {members : List Filter} (each : ∀ member ∈ members, ∀ {part},
      member.reduce fields = some part → part.height ≤ member.height) :
      ∀ part ∈ members.filterMap (Filter.reduce fields),
        part.height ≤ deepest (members.map height) := by
    intro part known
    obtain ⟨member, among, found⟩ := List.mem_filterMap.mp known
    exact Nat.le_trans (each member among found) (le_deepest (List.mem_map_of_mem among))
  induction filter generalizing part with
  | leaf test =>
      obtain ⟨_, rfl⟩ := reduce_leaf_eq_some_iff.mp reduced
      exact Nat.le_refl _
  | not child ih =>
      rw [reduce, Option.map_eq_some_iff] at reduced
      obtain ⟨inner, found, rfl⟩ := reduced
      rw [height]
      exact Nat.le_trans (height_negate_le inner) (Nat.succ_le_succ (ih found))
  | and members ih =>
      rw [reduce, Option.some.injEq] at reduced
      rw [← reduced, height]
      exact height_conj_le (parts ih)
  | or members ih =>
      rw [(reduce_or_eq_some_iff.mp reduced).2, height]
      exact height_disj_le (parts ih)
  | group child ih =>
      rw [reduce, Option.map_eq_some_iff] at reduced
      obtain ⟨inner, found, rfl⟩ := reduced
      rw [height]
      exact Nat.le_trans (height_regrouped_le inner) (Nat.succ_le_succ (ih found))
  | all | none =>
      rw [reduce] at reduced
      cases reduced
      exact Nat.le_refl _

theorem height_relax_le (fields : Fields) (filter : Filter) :
    (filter.relax fields).height ≤ filter.height := by
  rw [relax]
  cases reduced : filter.reduce fields with
  | none => exact height_all_le filter
  | some part => exact height_reduce_le reduced

theorem height_ungrouped_le (filter : Filter) : filter.ungrouped.height ≤ filter.height := by
  induction filter with
  | group child ih =>
      rw [ungrouped, height]
      exact Nat.le_succ_of_le ih
  | _ => exact Nat.le_refl _

theorem height_clause_le {clause : Filter} (known : clause ∈ filter.clauses) :
    clause.height ≤ filter.height := by
  refine Nat.le_trans ?_ (height_ungrouped_le filter)
  rw [clauses] at known
  cases form : filter.ungrouped with
  | and members =>
      rw [form] at known
      exact Nat.le_of_lt (height_lt_of_mem_children known)
  | _ =>
      rw [form] at known
      rw [List.mem_singleton.mp known]

theorem height_otherClauses_le (fields : Fields) (filter : Filter) :
    (joined and all (filter.otherClauses fields)).height ≤ filter.height := by
  refine Nat.le_trans ?_ (height_ungrouped_le filter)
  rw [otherClauses, clauses]
  cases filter.ungrouped with
  | and members =>
      rw [height, conjuncts]
      refine height_joined_le (fun _ => rfl) rfl fun member known => ?_
      exact le_deepest (List.mem_map_of_mem (List.dropWhile_subset _ known))
  | _ =>
      rw [conjuncts, List.dropWhile_cons]
      · split
        · exact height_all_le _
        · exact Nat.le_refl _
      · simp

theorem height_complement_le {complement : Filter}
    (found : filter.complement? fields = some complement) :
    complement.height ≤ filter.height + 2 := by
  rw [(complement?_eq_some_iff.mp found).2]
  refine height_conj_le fun member known => ?_
  rcases List.mem_append.mp known with lead | last
  · exact Nat.le_succ_of_le (height_clause_le (List.takeWhile_subset _ lead))
  · rw [List.mem_singleton.mp last]
    calc _ ≤ _ := height_negate_le _
      _ ≤ _ := Nat.succ_le_succ (height_relax_le fields _)
      _ ≤ filter.height + 1 := Nat.succ_le_succ (height_otherClauses_le fields filter)

theorem height_inStore (fields : Fields) (filter : Filter) :
    (filter.inStore fields).height = filter.height := by
  have members {members : List Filter}
      (each : ∀ member ∈ members, (member.mapLeaves fields.storeLeaf).height = member.height) :
      (members.map (mapLeaves fields.storeLeaf)).map height = members.map height := by
    rw [List.map_map]
    exact List.map_congr_left each
  rw [inStore]
  induction filter with
  | not child ih | group child ih => rw [mapLeaves, height, height, ih]
  | and list ih | or list ih => rw [mapLeaves, height, height, members ih]
  | leaf test => rw [mapLeaves, height, height]
  | all | none => rw [mapLeaves]

theorem height_asked_le {mode : Mode} {query : Filter}
    (asked : filter.asked? fields mode = some query) : query.height ≤ filter.height + 2 := by
  cases mode with
  | candidates =>
      cases asked
      exact Nat.le_trans (height_relax_le fields filter) (Nat.le_add_right _ _)
  | excluded => exact height_complement_le asked

end Rewritten

/-- A filter that was read is canonical and limited in height, whatever the length of the text. So
is the number of calls inside one another in every pass over it, over the clauses it is cut into,
and over what the stack store is asked, in its names as well. -/
theorem parse_bounded {text : String} {filter : Filter} (parsed : Filter.parse text = .ok filter) :
    Canonical filter ∧
      (∀ path, Branch filter path → path.countP deepens ≤ 127) ∧
      filter.height ≤ 3 * Reading.maxNesting ∧
      filter.RunsWithin (3 * Reading.maxNesting) ∧
      ∀ fields,
        (∀ clause ∈ filter.clauses, clause.RunsWithin (3 * Reading.maxNesting)) ∧
        (joined and all (filter.otherClauses fields)).RunsWithin (3 * Reading.maxNesting) ∧
        ∀ mode query, filter.asked? fields mode = some query →
          query.RunsWithin (3 * Reading.maxNesting + 2) ∧
          (query.inStore fields).RunsWithin (3 * Reading.maxNesting + 2) := by
  have known := parsed_of_parse parsed
  have shallow : filter.nesting < 128 := known.shallow
  have low : filter.height ≤ 3 * Reading.maxNesting := by
    have height := known.canonical.height_le
    have join := filter.isJoin.toNat_le
    have or := filter.isOr.toNat_le
    rw [Reading.maxNesting]
    omega
  refine ⟨known.canonical, fun path branch => ?_, low, runsWithin_iff.mpr low, fun fields => ?_⟩
  · exact Nat.le_trans branch.countP_deepens_le (Nat.le_of_lt_succ shallow)
  · refine ⟨fun clause among => ?_, ?_, fun mode query asked => ?_⟩
    · exact runsWithin_iff.mpr (Nat.le_trans (height_clause_le among) low)
    · exact runsWithin_iff.mpr (Nat.le_trans (height_otherClauses_le fields filter) low)
    · rw [runsWithin_iff, runsWithin_iff, height_inStore, and_self]
      exact Nat.le_trans (height_asked_le asked) (Nat.add_le_add_right low 2)

def ground : Filter := leaf (.term Option.none "x")

def storey (last : Filter) : Filter := or [ground, and [ground, last]]

def tower : Nat → Filter
  | 0 => storey ground
  | depth + 1 => storey (group (tower depth))

theorem canonical_storey {last : Filter} (single : last.isJoin = false)
    (canonical : Canonical last) : Canonical (storey last) := by
  have front : Canonical ground := .leaf
  have alone : ground.isJoin = false := rfl
  have inner : Canonical (and [ground, last]) :=
    .and (by simp) (by simp [alone, single]) (by simp [front, canonical])
  exact .or (by simp) (by simp [isOr, ground]) (by simp [front, inner])

theorem canonical_tower (depth : Nat) : Canonical (tower depth) := by
  induction depth with
  | zero => exact canonical_storey rfl .leaf
  | succ depth ih => exact canonical_storey rfl (.group ih)

theorem height_tower (depth : Nat) : (tower depth).height = 3 * depth + 3 := by
  induction depth with
  | zero => simp [tower, storey, ground, height, deepest]
  | succ depth ih =>
      simp [tower, storey, ground, height, deepest, ih]
      omega

theorem nesting_tower (depth : Nat) : (tower depth).nesting = depth := by
  induction depth with
  | zero => simp [tower, storey, ground, nesting, deepest, isOr]
  | succ depth ih => simp [tower, storey, ground, nesting, deepest, isOr, ih]

theorem leaves_tower {depth : Nat} {test : Leaf} (known : test ∈ (tower depth).leaves) :
    test = .term Option.none "x" := by
  induction depth with
  | zero => simpa [tower, storey, ground, leaves] using known
  | succ depth ih =>
      simp only [tower, storey, ground, leaves, List.flatMap_cons, List.flatMap_nil,
        List.append_nil, List.singleton_append, List.mem_cons] at known
      exact known.elim id fun later => later.elim id ih

theorem exists_branch_tower (depth : Nat) :
    ∃ path, Branch (tower depth) path ∧ path.countP deepens = depth := by
  induction depth with
  | zero => exact ⟨_, .here _, rfl⟩
  | succ depth ih =>
      obtain ⟨path, branch, count⟩ := ih
      have grouped : Branch (group (tower depth)) (group (tower depth) :: path) :=
        .down (by simp [children]) branch
      have joined : Branch (and [ground, group (tower depth)]) _ :=
        .down (by simp [children]) grouped
      refine ⟨_, .down (by simp [tower, storey, children]) joined, ?_⟩
      simp [List.countP_cons, tower, storey, deepens, count]

theorem parse_bounded_tower :
    let text := (tower 127).toText .standard
    Filter.parse text = .ok (tower 127) ∧
      (∃ path, Branch (tower 127) path ∧ path.countP deepens = 127) ∧
      (tower 127).height = 3 * Reading.maxNesting ∧
      (tower 127).RunsWithin 384 ∧ ¬(tower 127).RunsWithin 383 := by
  intro text
  have named : (tower 127).Named := by
    intro test known
    rw [leaves_tower known]
    simp [Leaf.field?]
  have same : (tower 127).reread = tower 127 := by
    rw [reread_eq_self_iff (canonical_tower 127)]
    intro test known
    rw [leaves_tower known]
    simp [Leaf.readsBack_iff]
  have parsed : Filter.parse text = .ok (tower 127) := by
    rw [parse_toText_iff named, nesting_tower, same]
    exact ⟨by decide, rfl⟩
  obtain ⟨_, _, _, runs, _⟩ := parse_bounded parsed
  refine ⟨parsed, exists_branch_tower 127, height_tower 127, runs, ?_⟩
  rw [runsWithin_iff, height_tower]
  decide

end ScopedFilter.Filter
