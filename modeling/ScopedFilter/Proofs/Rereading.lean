import ScopedFilter.Proofs.ParsedFilter
import ScopedFilter.Proofs.WrittenLeaf

/-!
Reading back a written filter. It derives what `reread` says, and by `sound_of_derives` that cannot
be done with a smaller budget than its nesting. Main statement: `parse_toText_iff`.
-/

namespace ScopedFilter

open Grammar Text

theorem conjuncts_extend {budget : Nat} {field : Option String} {firsts seconds : List Filter}
    {input stop rest : List Kind} (derived : Derives budget (.conjuncts field firsts) input stop)
    (last : ∀ {filter unread}, Derives budget (.clause field filter) unread stop →
      Derives budget (.conjuncts field (filter :: seconds)) unread rest) :
    Derives budget (.conjuncts field (firsts ++ seconds)) input rest := by
  generalize form : Part.conjuncts field firsts = part at derived
  induction derived generalizing firsts with
  | lastConjunct first =>
      cases form
      exact last first
  | joinedConjunct first _ _ ih =>
      cases form
      exact .joinedConjunct first (ih last rfl)
  | adjacentConjunct first starts _ _ ih =>
      cases form
      exact .adjacentConjunct first starts (ih last rfl)
  | _ => cases form

theorem conjuncts_append {budget : Nat} {field : Option String} {firsts seconds : List Filter}
    {input middle rest : List Kind}
    (derived : Derives budget (.conjuncts field firsts) input (.and :: middle))
    (later : Derives budget (.conjuncts field seconds) middle rest) :
    Derives budget (.conjuncts field (firsts ++ seconds)) input rest :=
  conjuncts_extend derived fun first => .joinedConjunct first later

theorem disjuncts_append {budget : Nat} {field : Option String} {firsts seconds : List Filter}
    {input middle rest : List Kind}
    (derived : Derives budget (.disjuncts field firsts) input (.or :: middle))
    (later : Derives budget (.disjuncts field seconds) middle rest) :
    Derives budget (.disjuncts field (firsts ++ seconds)) input rest := by
  generalize form : Part.disjuncts field firsts = part at derived
  generalize stop : Kind.or :: middle = unread at derived
  induction derived generalizing firsts with
  | lastDisjunct first joins =>
      cases form
      subst stop
      exact .joinedDisjunct first joins later
  | joinedDisjunct first joins _ _ ih =>
      cases form
      exact .joinedDisjunct first joins (ih later rfl stop)
  | _ => cases form

theorem readAs_intercalate {budget : Nat} {form : List Filter → Part} {separator : List Char}
    {kind : Kind}
    (cut : ∀ rest, Lexeme.kinds false (' ' :: separator ++ rest) = kind :: Lexeme.kinds false rest)
    (noColon : kind ≠ .colon)
    (append : ∀ {firsts seconds input middle rest},
      Derives budget (form firsts) input (kind :: middle) →
      Derives budget (form seconds) middle rest →
      Derives budget (form (firsts ++ seconds)) input rest)
    {text : Filter → List Char} {found : Filter → List Filter} {members : List Filter}
    (nonempty : members ≠ [])
    (each : ∀ member ∈ members, ReadAs budget (text member) (form (found member))) :
    ReadAs budget ((' ' :: separator).intercalate (members.map text))
      (form (members.flatMap found)) := by
  intro rest ends
  induction members with
  | nil => exact absurd rfl nonempty
  | cons member members ih =>
      cases members with
      | nil => simpa using each member (by simp) rest ends
      | cons next later =>
          have derived := ih (by simp) fun other known => each other (by simp [known])
          rw [List.flatMap_cons, List.map_cons, List.map_cons, List.intercalate_cons_cons,
            List.append_assoc, List.append_assoc]
          refine append ?_ derived
          rw [← List.map_cons, ← cut]
          exact each member (by simp) _ (ends_of_kinds (atEdge_blank _) (cut _) noColon)

namespace Filter

/-- The written filter is read back: as one clause if it is neither a conjunction nor a disjunction,
as conjuncts if it is no disjunction, and as disjuncts in any case. -/
structure Rereads (budget : Nat) (filter : Filter) : Prop where
  clause : filter.isJoin = false →
    ReadAs budget (filter.written .standard) (.clause Option.none filter.reread)
  conjuncts : filter.isOr = false →
    ReadAs budget (filter.written .standard)
      (.conjuncts Option.none filter.alternatives.flatten)
  disjuncts :
    ReadAs budget (filter.written .standard)
      (.disjuncts Option.none (filter.alternatives.map (joined and all)))

namespace Rereads

variable {budget : Nat} {filter : Filter}

theorem of_conjuncts (several : filter.isJoin = true) (single : filter.isOr = false)
    (derived : ReadAs budget (filter.written .standard)
      (.conjuncts Option.none filter.alternatives.flatten)) : Rereads budget filter where
  clause one := by rw [several] at one; cases one
  conjuncts _ := derived
  disjuncts rest ends := by
    rw [alternatives_of_not_isOr single]
    have conjuncts := derived rest ends
    exact .lastDisjunct conjuncts (joins_conjuncts conjuncts)

theorem of_clause (single : filter.isJoin = false)
    (derived : ReadAs budget (filter.written .standard) (.clause Option.none filter.reread)) :
    Rereads budget filter where
  clause _ := derived
  conjuncts _ rest ends := by
    rw [alternatives_of_not_isJoin single]
    exact .lastConjunct (derived rest ends)
  disjuncts rest ends := by
    rw [alternatives_of_not_isJoin single]
    exact .lastDisjunct (.lastConjunct (derived rest ends)) .single

theorem enclosed (inner : Rereads budget filter) :
    ReadAs (budget + 1) (Filter.enclosed true (filter.written .standard))
      (.clause Option.none (group filter.reread)) := by
  intro rest _
  have close : Lexeme.kinds false (')' :: rest) = .rightParen :: Lexeme.kinds false rest :=
    Lexeme.kinds_punctuation rfl
  have derived := inner.disjuncts (')' :: rest)
    (ends_of_kinds (atEdge_cons (by decide)) close (by simp))
  rw [close] at derived
  rw [Filter.enclosed, if_pos rfl, List.append_assoc, List.cons_append, List.singleton_append,
    Lexeme.kinds_punctuation (show Kind.punctuation? '(' = some .leftParen from rfl)]
  exact .group derived (joins_disjuncts derived)

theorem operand (inner : ∀ {budget}, filter.nesting < budget → Rereads budget filter)
    (shallow : filter.nestingInNot < budget) :
    ReadAs budget (Filter.enclosed filter.isJoin (filter.written .standard))
      (.clause Option.none (grouped filter.isJoin filter.reread)) := by
  rw [nestingInNot] at shallow
  cases join : filter.isJoin with
  | true =>
      obtain ⟨fewer, rfl⟩ : ∃ fewer, budget = fewer + 1 := ⟨budget - 1, by omega⟩
      rw [join] at shallow
      exact (inner (Nat.lt_of_succ_lt_succ shallow)).enclosed
  | false =>
      rw [join] at shallow
      exact (inner shallow).clause join

theorem member (inner : ∀ {budget}, filter.nesting < budget → Rereads budget filter)
    (shallow : filter.nestingInAnd < budget) :
    ReadAs budget (Filter.enclosed filter.isOr (filter.written .standard))
      (.conjuncts Option.none (clausesAdded filter.isOr filter.alternatives)) := by
  rw [nestingInAnd] at shallow
  cases join : filter.isOr with
  | true =>
      obtain ⟨fewer, rfl⟩ : ∃ fewer, budget = fewer + 1 := ⟨budget - 1, by omega⟩
      rw [join] at shallow
      have inner := (inner (Nat.lt_of_succ_lt_succ shallow)).enclosed
      exact fun rest ends => .lastConjunct (inner rest ends)
  | false =>
      rw [join] at shallow
      exact (inner shallow).conjuncts join

end Rereads

section Sentinels

theorem kinds_star {rest : List Char} (edge : AtEdge rest) (afterColon : Bool) :
    Lexeme.kinds afterColon ('*' :: rest) = .word "*" :: Lexeme.kinds false rest :=
  @kinds_harmless rest afterColon '*' rfl rfl edge []

theorem readAs_all {budget : Nat} :
    ReadAs (budget + 1) Sentinels.standard.all.toList (.clause Option.none all) := by
  intro rest ends
  rw [show Sentinels.standard.all.toList ++ rest = '*' :: ':' :: '*' :: rest from rfl,
    kinds_star (atEdge_cons (by decide)),
    Lexeme.kinds_punctuation (show Kind.punctuation? ':' = some .colon from rfl),
    kinds_star ends.edge]
  have star : Spells "*" "*" := spells_iff.mpr rfl
  exact .fielded star (.wordValue .everything)

theorem readAs_none {budget : Nat} :
    ReadAs (budget + 2) Sentinels.standard.none.toList (.clause Option.none (not all)) := by
  intro rest ends
  rw [show Sentinels.standard.none.toList ++ rest = '-' :: '*' :: ':' :: '*' :: rest from rfl,
    Lexeme.kinds_sign (show Kind.sign? '-' = some .minus from rfl) (by decide)]
  exact .negation .minus (readAs_all rest ends)

end Sentinels

theorem rereads {filter : Filter} (named : ∀ test ∈ filter.leaves, test.field? ≠ some "")
    {budget : Nat} (shallow : filter.nesting < budget) : Rereads budget filter := by
  induction filter generalizing budget with
  | leaf test =>
      obtain ⟨budget, rfl⟩ : ∃ fewer, budget = fewer + 1 := ⟨budget - 1, by omega⟩
      refine .of_clause rfl ?_
      rw [written, reread_leaf]
      exact readAs_leaf (named test (by simp [leaves]))
  | not child ih =>
      rw [nesting_not] at shallow
      rw [leaves] at named
      obtain ⟨budget, rfl⟩ : ∃ fewer, budget = fewer + 1 := ⟨budget - 1, by omega⟩
      have operand := Rereads.operand (ih named) (Nat.lt_of_succ_lt_succ shallow)
      refine .of_clause rfl fun rest ends => ?_
      rw [written, List.append_assoc, kinds_not, reread_not]
      exact .negation .not (operand rest ends)
  | and members ih =>
      refine .of_conjuncts rfl rfl ?_
      rw [written, alternatives]
      split
      · obtain ⟨budget, rfl⟩ : ∃ fewer, budget = fewer + 1 := ⟨budget - 1, by omega⟩
        exact fun rest ends => .lastConjunct (readAs_all rest ends)
      · rename_i nonempty
        rw [List.flatten_singleton]
        refine readAs_intercalate kinds_and (by simp) conjuncts_append
          (by simpa using nonempty) fun member known => ?_
        refine Rereads.member (ih member known fun test present => named test ?_)
          (Nat.lt_of_le_of_lt (nesting_le_of_mem_and known) shallow)
        rw [leaves]
        exact List.mem_flatMap_of_mem known present
  | or members ih =>
      refine ⟨by simp [isJoin], by simp [isOr], ?_⟩
      rw [written, alternatives]
      split
      · rename_i empty
        rw [nesting, if_pos empty] at shallow
        obtain ⟨budget, rfl⟩ : ∃ fewer, budget = fewer + 2 := ⟨budget - 2, by omega⟩
        exact fun rest ends => .lastDisjunct (.lastConjunct (readAs_none rest ends)) .single
      · rename_i nonempty
        rw [List.map_flatMap]
        refine readAs_intercalate kinds_or (by simp) disjuncts_append
          (by simpa using nonempty) fun member known => ?_
        refine (ih member known (fun test present => named test ?_)
          (Nat.lt_of_le_of_lt (nesting_le_of_mem_or known) shallow)).disjuncts
        rw [leaves]
        exact List.mem_flatMap_of_mem known present
  | group child ih =>
      rw [nesting] at shallow
      rw [leaves] at named
      obtain ⟨budget, rfl⟩ : ∃ fewer, budget = fewer + 1 := ⟨budget - 1, by omega⟩
      refine .of_clause rfl ?_
      rw [written, reread_group]
      exact (ih named (show child.nesting < budget by omega)).enclosed
  | all =>
      obtain ⟨budget, rfl⟩ : ∃ fewer, budget = fewer + 1 := ⟨budget - 1, by omega⟩
      refine .of_clause rfl ?_
      rw [written, reread_all]
      exact readAs_all
  | none =>
      rw [nesting] at shallow
      obtain ⟨budget, rfl⟩ : ∃ fewer, budget = fewer + 2 := ⟨budget - 2, by omega⟩
      refine .of_clause rfl ?_
      rw [written, reread_none]
      exact readAs_none

theorem nesting_le_joined_and {member : Filter} {members : List Filter} (known : member ∈ members) :
    member.nesting ≤ (joined and all members).nesting := by
  rcases members with _ | ⟨first, _ | ⟨second, rest⟩⟩
  · cases known
  · rw [List.mem_singleton.mp known]
    exact Nat.le_refl _
  · exact Nat.le_trans (nesting_le_nestingInAnd member) (nesting_le_of_mem_and known)

theorem nesting_le_joined_or {member : Filter} {members : List Filter} (known : member ∈ members) :
    member.nesting ≤ (joined or none members).nesting := by
  rcases members with _ | ⟨first, _ | ⟨second, rest⟩⟩
  · cases known
  · rw [List.mem_singleton.mp known]
    exact Nat.le_refl _
  · exact nesting_le_of_mem_or known

theorem nesting_le_ofAlternatives {clause : Filter} {alternatives : List (List Filter)}
    (known : clause ∈ alternatives.flatten) :
    clause.nesting ≤ (ofAlternatives alternatives).nesting := by
  obtain ⟨conjuncts, among, present⟩ := List.mem_flatten.mp known
  exact Nat.le_trans (nesting_le_joined_and present)
    (nesting_le_joined_or (List.mem_map_of_mem among))

theorem deepest_clause_le (filter : Filter) :
    deepest (filter.alternatives.flatten.map nesting) ≤ filter.reread.nesting := by
  rw [deepest_le_iff, List.forall_mem_map]
  exact fun clause known => nesting_le_ofAlternatives known

theorem deepest_map_mono {fewer more : List Filter} (subset : fewer ⊆ more) :
    deepest (fewer.map nesting) ≤ deepest (more.map nesting) := by
  rw [deepest_le_iff, List.forall_mem_map]
  exact fun clause known => le_deepest (List.mem_map_of_mem (subset known))

theorem nesting_grouped (wrap : Bool) (filter : Filter) :
    (grouped wrap filter).nesting = filter.nesting + if wrap then 1 else 0 := by
  cases wrap <;> simp [grouped, nesting]

theorem deepest_singleton (depth : Nat) : deepest [depth] = depth := by
  simp [deepest]

theorem nesting_le_deepest_clause (filter : Filter) :
    filter.nesting ≤ deepest (filter.alternatives.flatten.map nesting) := by
  induction filter with
  | leaf test => simp [nesting]
  | not child ih =>
      have inner := Nat.le_trans ih (deepest_clause_le child)
      rw [reread] at inner
      rw [alternatives, List.flatten_singleton, List.map_singleton, deepest_singleton, nesting,
        nesting, nesting_grouped]
      omega
  | and members ih =>
      rw [nesting, deepest_le_iff, List.forall_mem_map]
      intro member known
      have inner := ih member known
      have added : member.nestingInAnd ≤
          deepest ((clausesAdded member.isOr member.alternatives).map nesting) := by
        rw [nestingInAnd]
        cases join : member.isOr with
        | true =>
            have deeper := Nat.le_trans inner (deepest_clause_le member)
            simp only [clausesAdded, if_true, List.map_singleton, deepest_singleton, nesting]
            exact Nat.succ_le_succ deeper
        | false => exact inner
      have nonempty : ¬members.isEmpty = true := by simpa using List.ne_nil_of_mem known
      rw [alternatives, if_neg nonempty, List.flatten_singleton]
      exact Nat.le_trans added
        (deepest_map_mono fun clause present => List.mem_flatMap.mpr ⟨member, known, present⟩)
  | or members ih =>
      rw [nesting, alternatives]
      split
      · simp [nesting, isJoin, deepest]
      · rw [deepest_le_iff, List.forall_mem_map]
        intro member known
        refine Nat.le_trans (ih member known) (deepest_map_mono fun clause present => ?_)
        obtain ⟨conjuncts, among, within⟩ := List.mem_flatten.mp present
        exact List.mem_flatten.mpr ⟨conjuncts, List.mem_flatMap.mpr ⟨member, known, among⟩, within⟩
  | group child ih =>
      have inner := Nat.le_trans ih (deepest_clause_le child)
      rw [alternatives, List.flatten_singleton, List.map_singleton, deepest_singleton, nesting,
        nesting]
      exact Nat.succ_le_succ inner
  | all => simp [nesting]
  | none => simp [nesting, alternatives, isJoin, deepest]

theorem nesting_le_nesting_reread (filter : Filter) : filter.nesting ≤ filter.reread.nesting :=
  Nat.le_trans (nesting_le_deepest_clause filter) (deepest_clause_le filter)

/-- A written filter is read back just if it does not nest too deep, and then as `reread` says. -/
theorem parse_toText_iff {filter again : Filter} (named : filter.Named) :
    Filter.parse (filter.toText .standard) = .ok again ↔
      filter.nesting < Reading.maxNesting ∧ again = filter.reread := by
  have text : (filter.toText .standard).toList = filter.written .standard ++ [] := by
    rw [toText, String.toList_ofList, List.append_nil]
  rw [parse_eq_ok_iff, text]
  constructor
  · rintro ⟨members, derived, rfl⟩
    have enough := (rereads named (Nat.lt_succ_self filter.nesting)).disjuncts [] ends_nil
    rw [Lexeme.kinds_nil] at enough
    cases disjuncts_unique derived enough
    have ⟨_, within⟩ := Fits.of_joins_or (joins_disjuncts derived) (sound_of_derives derived).2
    exact ⟨Nat.lt_of_le_of_lt (nesting_le_nesting_reread filter) within, rfl⟩
  · rintro ⟨shallow, rfl⟩
    have derived := (rereads named shallow).disjuncts [] ends_nil
    rw [Lexeme.kinds_nil] at derived
    exact ⟨_, derived, rfl⟩

end Filter

end ScopedFilter
