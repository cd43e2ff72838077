import ScopedFilter.Query.Locality
import ScopedFilter.Query.Reading

/-!
Reading finds derivations, and every derivation that ends where nothing can be added is found. Main
statements: `derives_of_clause`, for what is read, and `reads_of_derives`, for what is derived.
-/

namespace ScopedFilter.Reading

open Grammar Text

theorem bound_eq_done_iff {input rest : List Kind} {text : String} :
    bound.run input = .done text rest ↔ Bound input text rest := by
  constructor
  · intro read
    simp only [bound, Step.run_look] at read
    split at read
    · cases read; exact .minus (spells_unescaped _)
    · cases read; exact .plus (spells_unescaped _)
    · cases read
    · cases read
    · cases read; exact .word (spells_unescaped _)
    · cases read; exact .phrase (spells_unescaped _)
    · cases read
  · intro derived
    cases derived with
    | word spells | phrase spells | minus spells | plus spells =>
        cases spells_iff.mp spells
        rfl

theorem rangeEnd_eq_done_iff {input rest : List Kind} {inclusive : Bool} :
    rangeEnd.run input = .done inclusive rest ↔
      ∃ closing, Closes closing inclusive ∧ input = closing :: rest := by
  constructor
  · intro read
    simp only [rangeEnd, Step.run_look] at read
    split at read
    · cases read; exact ⟨_, .bracket, rfl⟩
    · cases read; exact ⟨_, .brace, rfl⟩
    · cases read
  · rintro ⟨closing, closes, rfl⟩
    cases closes <;> rfl

theorem range_of_run {field : String} {lowInclusive : Bool} {opening : Kind}
    {input rest : List Kind} {filter : Filter} (opens : Opens opening lowInclusive)
    (read : (range field lowInclusive).run input = .done filter rest) :
    Range field (opening :: input) filter rest := by
  simp only [range, Step.run_bind_eq_done, Step.run_map_eq_done, Step.run_expect_eq_done] at read
  obtain ⟨low, _, lowRead, _, afterTo, rfl, high, _, highRead, inclusive, ended, rfl⟩ := read
  obtain ⟨closing, closes, rfl⟩ := rangeEnd_eq_done_iff.mp ended
  exact .range opens (bound_eq_done_iff.mp lowRead) (bound_eq_done_iff.mp highRead) closes

theorem run_of_range {field : String} {input rest : List Kind} {filter : Filter}
    (derived : Range field input filter rest) :
    ∃ opening tail lowInclusive, input = opening :: tail ∧ Opens opening lowInclusive ∧
      (range field lowInclusive).run tail = .done filter rest := by
  rcases derived with ⟨opens, low, high, closes⟩
  refine ⟨_, _, _, rfl, opens, ?_⟩
  simp only [range, Step.run_bind_eq_done, Step.run_map_eq_done, Step.run_expect_eq_done]
  exact ⟨_, _, bound_eq_done_iff.mpr low, (), _, rfl, _, _, bound_eq_done_iff.mpr high, _,
    rangeEnd_eq_done_iff.mpr ⟨_, closes, rfl⟩, rfl⟩

theorem comparison?_eq_some_iff {field : String} {raw : List Char} {leaf : Leaf} :
    comparison? field raw = some leaf ↔ Comparison field raw leaf := by
  constructor
  · intro found
    unfold comparison? at found
    split at found
    · cases found; exact .atLeast (by simp) (unescapes_ofList _)
    · cases found
    · cases found; exact .atMost (by simp) (unescapes_ofList _)
    · cases found
    · rename_i first rest some_bound no_bound
      cases found
      refine .above (by simp) ?_ (unescapes_ofList _)
      intro equals
      simp only [List.head?_cons, Option.some.injEq] at equals
      subst equals
      cases rest with
      | nil => exact no_bound rfl rfl
      | cons next rest => exact some_bound next rest rfl rfl
    · rename_i first rest some_bound no_bound
      cases found
      refine .below (by simp) ?_ (unescapes_ofList _)
      intro equals
      simp only [List.head?_cons, Option.some.injEq] at equals
      subst equals
      cases rest with
      | nil => exact no_bound rfl rfl
      | cons next rest => exact some_bound next rest rfl rfl
    · cases found
  · intro derived
    cases derived with
    | @atLeast bound _ present unescapes =>
        cases unescapes_toList_iff.mp unescapes
        cases bound with
        | nil => exact absurd rfl present
        | cons first rest => rfl
    | @atMost bound _ present unescapes =>
        cases unescapes_toList_iff.mp unescapes
        cases bound with
        | nil => exact absurd rfl present
        | cons first rest => rfl
    | @above bound _ present other unescapes =>
        cases unescapes_toList_iff.mp unescapes
        cases bound with
        | nil => exact absurd rfl present
        | cons first rest =>
            unfold comparison?
            split <;>
              simp_all [comparison?.atLeast, comparison?.value, unbounded, Inclusivity.neither]
    | @below bound _ present other unescapes =>
        cases unescapes_toList_iff.mp unescapes
        cases bound with
        | nil => exact absurd rfl present
        | cons first rest =>
            unfold comparison?
            split <;>
              simp_all [comparison?.atMost, comparison?.value, unbounded, Inclusivity.neither]

theorem wordValue_eq_iff {field raw : String} {filter : Filter} :
    wordValue field raw = filter ↔ WordValue field raw filter := by
  have derived : WordValue field raw (wordValue field raw) := by
    unfold wordValue
    split
    · rename_i stars
      rw [stars.1, stars.2]
      exact .everything
    · rename_i stars
      cases found : comparison? field raw.toList with
      | some leaf => exact .comparison (comparison?_eq_some_iff.mp found)
      | none =>
          refine .term stars (fun leaf compared => ?_) (spells_unescaped raw)
          rw [comparison?_eq_some_iff.mpr compared] at found
          cases found
  constructor
  · rintro rfl
    exact derived
  · intro other
    cases other with
    | everything => rfl
    | comparison compared =>
        unfold wordValue
        split
        · rename_i stars
          rw [stars.2] at compared
          cases compared
        · rw [comparison?_eq_some_iff.mpr compared]
          rfl
    | term stars plainWord spells =>
        unfold wordValue
        rw [if_neg stars, ← spells_iff.mp spells]
        cases found : comparison? field raw.toList with
        | none => rfl
        | some leaf => exact absurd (comparison?_eq_some_iff.mp found) (plainWord leaf)

theorem startsClause_of_derives {budget : Nat} {field : Option String} {members : List Filter}
    {kind : Kind} {input rest : List Kind} (starts : startsClause kind = true)
    (derived : Derives budget (.conjuncts field members) (kind :: input) rest) :
    StartsClause kind := by
  refine (starts_of_derives derived).resolve_right ?_
  rintro ⟨_, _, opens⟩
  cases opens <;> cases starts

theorem conjuncts_of_run {budget : Nat} {field : Option String}
    (clauses : ∀ {input filter rest}, (clause budget field).run input = .done filter rest →
      Derives budget (.clause field filter) input rest)
    {input rest : List Kind} {members : List Filter}
    (read : Step.operandsFrom conjunctGap? (clause budget field) input = .done members rest) :
    Derives budget (.conjuncts field members) input rest := by
  refine Step.operandsFrom_done
    (motive := fun unread found => Derives budget (.conjuncts field found) unread rest)
    (fun reply => .lastConjunct (clauses reply)) ?_ read
  intro input filter unread gap others reply found later
  have derived := clauses reply
  unfold conjunctGap? at found
  split at found
  · cases found
    exact .joinedConjunct derived later
  · rename_i kind tail _
    split at found
    · rename_i starts
      cases found
      rw [List.drop_zero] at later
      exact .adjacentConjunct derived (startsClause_of_derives starts later) later
    · cases found
  · cases found

theorem disjuncts_of_run {budget : Nat} {field : Option String}
    (clauses : ∀ {input filter rest}, (clause budget field).run input = .done filter rest →
      Derives budget (.clause field filter) input rest)
    {input rest : List Kind} {members : List Filter}
    (read : Step.operandsFrom disjunctGap? (conjunction (clause budget field)) input
      = .done members rest) :
    Derives budget (.disjuncts field members) input rest := by
  have conjunctions : ∀ {input filter left},
      (conjunction (clause budget field)).run input = .done filter left →
      ∃ conjuncts, Derives budget (.conjuncts field conjuncts) input left ∧
        Joins .and conjuncts filter := by
    intro input filter left reply
    obtain ⟨conjuncts, found, rfl⟩ := Step.run_map_eq_done.mp reply
    have derived := conjuncts_of_run clauses found
    exact ⟨conjuncts, derived, joins_conjuncts derived⟩
  refine Step.operandsFrom_done
    (motive := fun unread found => Derives budget (.disjuncts field found) unread rest) ?_ ?_ read
  · intro input filter reply
    obtain ⟨conjuncts, derived, joins⟩ := conjunctions reply
    exact .lastDisjunct derived joins
  · intro input filter unread gap others reply found later
    obtain ⟨conjuncts, derived, joins⟩ := conjunctions reply
    unfold disjunctGap? at found
    split at found
    · cases found
      exact .joinedDisjunct derived joins later
    · cases found

theorem group_of_run {budget : Nat} {field : Option String}
    (clauses : ∀ {input filter rest}, (clause budget field).run input = .done filter rest →
      Derives budget (.clause field filter) input rest)
    {input rest : List Kind} {filter : Filter}
    (read : (group (clause budget field)).run input = .done filter rest) :
    ∃ members inner, filter = .group inner ∧ Joins .or members inner ∧
      Derives budget (.disjuncts field members) input (.rightParen :: rest) := by
  simp only [group, disjunction, Step.run_bind_eq_done, Step.run_map_eq_done,
    Step.run_expect_eq_done] at read
  obtain ⟨_, _, ⟨members, found, rfl⟩, _, rfl, rfl⟩ := read
  have derived := disjuncts_of_run clauses found
  exact ⟨members, _, rfl, joins_disjuncts derived, derived⟩

theorem derives_of_clause {budget : Nat} {field : Option String} {input rest : List Kind}
    {filter : Filter} (read : (clause budget field).run input = .done filter rest) :
    Derives budget (.clause field filter) input rest := by
  induction budget generalizing field input filter rest with
  | zero => cases read
  | succ budget ih =>
      simp only [clause, Step.run_look] at read
      split at read
      · obtain ⟨_, inner, rfl⟩ := Step.run_map_eq_done.mp read
        exact .negation .not (ih inner)
      · obtain ⟨_, inner, rfl⟩ := Step.run_map_eq_done.mp read
        exact .negation .minus (ih inner)
      · obtain ⟨_, inner, rfl⟩ := Step.run_map_eq_done.mp read
        exact .negation .bang (ih inner)
      · exact .affirmation (ih read)
      · obtain ⟨members, inner, rfl, joins, derived⟩ := group_of_run ih read
        exact .group derived joins
      · refine .fielded (spells_unescaped _) ?_
        simp only [Step.run_past, value, Step.run_look] at read
        split at read
        · cases read
          exact .wordValue (wordValue_eq_iff.mp rfl)
        · cases read
          exact .upToValue
        · cases read
          exact .phraseValue (spells_unescaped _)
        · obtain ⟨members, inner, rfl, joins, derived⟩ := group_of_run ih read
          exact .groupValue derived joins
        · exact .rangeValue (range_of_run .bracket read)
        · exact .rangeValue (range_of_run .brace read)
        · cases read
        · cases read
      · rename_i raw tail noColon
        cases read
        refine .word (fun colon => ?_) (spells_unescaped raw)
        cases rest with
        | nil => cases colon
        | cons kind rest =>
            simp only [List.head?_cons, Option.some.injEq] at colon
            exact noColon rest (by rw [colon])
      · cases read
        exact .upTo
      · cases read
        exact .phrase (spells_unescaped _)
      · split at read
        · exact .range (range_of_run .bracket read)
        · cases read
      · split at read
        · exact .range (range_of_run .brace read)
        · cases read
      · cases read
      · cases read

/-- What a derivation promises of reading. Where operands are joined, reading goes on as long as it
can, so nothing further may be joined to what is left. -/
def Reads (budget : Nat) : Part → List Kind → List Kind → Prop
  | .clause field filter, input, rest => (clause budget field).run input = .done filter rest
  | .conjuncts field members, input, rest => conjunctGap? rest = none →
      Step.operandsFrom conjunctGap? (clause budget field) input = .done members rest
  | .disjuncts field members, input, rest => conjunctGap? rest = none → disjunctGap? rest = none →
      Step.operandsFrom disjunctGap? (conjunction (clause budget field)) input
        = .done members rest
  | .value field filter, input, rest =>
      (value field (clause budget (some field))).run input = .done filter rest

theorem group_of_reads {budget : Nat} {field : Option String} {members : List Filter}
    {inner : Filter} {input rest : List Kind}
    (reads : Reads budget (.disjuncts field members) input (.rightParen :: rest))
    (joins : Joins .or members inner) :
    (group (clause budget field)).run input = .done (.group inner) rest := by
  simp only [group, disjunction, Step.run_bind_eq_done, Step.run_map_eq_done,
    Step.run_expect_eq_done]
  exact ⟨_, _, ⟨members, reads rfl rfl, (joins.eq_joined .none).symm⟩, (), rfl, rfl⟩

theorem run_conjunction {clause : KindStep Filter} {members : List Filter} {filter : Filter}
    {input rest : List Kind} (joins : Joins .and members filter)
    (read : Step.operandsFrom conjunctGap? clause input = .done members rest) :
    (conjunction clause).run input = .done filter rest :=
  Step.run_map_eq_done.mpr ⟨_, read, (joins.eq_joined .all).symm⟩

theorem reads_of_derives {budget : Nat} {part : Part} {input rest : List Kind}
    (derived : Derives budget part input rest) : Reads budget part input rest := by
  induction derived with
  | negation sign _ ih =>
      cases sign <;>
        simp only [Reads, clause, Step.run_look, Step.run_past, Step.run_map_eq_done] <;>
        exact ⟨_, ih, rfl⟩
  | affirmation _ ih => exact ih
  | group _ joins ih => exact group_of_reads ih joins
  | fielded spells _ ih =>
      cases spells_iff.mp spells
      exact ih
  | word noColon spells =>
      cases spells_iff.mp spells
      simp only [Reads, clause, Step.run_look]
      split <;> simp_all
  | upTo => rfl
  | phrase spells =>
      cases spells_iff.mp spells
      rfl
  | range found =>
      obtain ⟨_, _, _, rfl, opens, read⟩ := run_of_range found
      cases opens <;> exact read
  | wordValue meant =>
      simp only [Reads, value, Step.run_look, Step.run_take]
      rw [wordValue_eq_iff.mpr meant]
  | upToValue => rfl
  | phraseValue spells =>
      cases spells_iff.mp spells
      rfl
  | groupValue _ joins ih => exact group_of_reads ih joins
  | rangeValue found =>
      obtain ⟨_, _, _, rfl, opens, read⟩ := run_of_range found
      cases opens <;> exact read
  | lastConjunct _ ih =>
      intro ended
      rw [Step.operandsFrom_eq, show Step.run _ _ = _ from ih]
      simp [ended]
  | joinedConjunct _ _ first later =>
      intro ended
      rw [Step.operandsFrom_eq, show Step.run _ _ = _ from first]
      simp [conjunctGap?, later ended, Reply.map]
  | @adjacentConjunct _ _ _ _ kind middle _ _ _ starts _ first later =>
      intro ended
      have gap : conjunctGap? (kind :: middle) = some 0 := by cases starts <;> rfl
      rw [Step.operandsFrom_eq, show Step.run _ _ = _ from first]
      simp [gap, later ended, Reply.map]
  | lastDisjunct _ joins ih =>
      intro ended lastEnded
      rw [Step.operandsFrom_eq, run_conjunction joins (ih ended)]
      simp [lastEnded]
  | joinedDisjunct _ joins _ first later =>
      intro ended lastEnded
      rw [Step.operandsFrom_eq, run_conjunction joins (first rfl)]
      simp [disjunctGap?, later ended lastEnded, Reply.map]

end ScopedFilter.Reading
