import Mathlib
import ScopedFilter.Proofs.Acceptance

/-!
What a syntax fault expects is true. The kinds before the fault can go on as each label says and
then be completed to a query: open ranges and groups are closed, and what was read before stays as
it was. Main statement: `read_fault_truthful`.
-/

namespace ScopedFilter

open Grammar

inductive Names : Expectation → Kind → Prop
  | term {raw} : Names .term (.word raw)
  | fieldValue {raw} : Names .fieldValue (.word raw)
  | rangeBound {raw} : Names .rangeBound (.word raw)
  | rightParen : Names .rightParen .rightParen
  | upTo : Names .upTo .upTo
  | rightBracket : Names .rightBracket .rightBracket
  | rightBrace : Names .rightBrace .rightBrace
  | closingQuote {raw} : Names .closingQuote (.phrase raw)

theorem Names.ne_colon {label : Expectation} {kind : Kind} (names : Names label kind) :
    kind ≠ .colon := by
  rintro rfl
  cases names

/-- Kinds that begin as the label says. -/
inductive Begins : Expectation → List Kind → Prop
  | kind {label kind rest} : Names label kind → Begins label (kind :: rest)
  | endOfInput : Begins .endOfInput []

namespace Reading

/-- The kinds before can go on with one that the label names so that `form` holds of all of them,
whatever may follow. -/
def Completes (form : List Kind → List Kind → Prop) (before : List Kind) (label : Expectation) :
    Prop :=
  ∃ kind more, Names label kind ∧
    ∀ other, other.head? ≠ some .colon → form (before ++ kind :: (more ++ other)) other

/-- Reading stopped in front of `rest`: the budget was used up, or each label tells how to get to
`form`. -/
def Expects (form : List Kind → List Kind → Prop) (input : List Kind)
    (expected : List Expectation) (rest : List Kind) : Prop :=
  expected = [.shallowerNesting] ∨ ∃ before, input = before ++ rest ∧ expected ≠ [] ∧
    ∀ label ∈ expected, Completes form before label

namespace Expects

variable {form later whole : List Kind → List Kind → Prop} {input middle rest : List Kind}
  {expected : List Expectation} {label : Expectation} {kind : Kind}

theorem here (some : expected ≠ []) (holds : ∀ label ∈ expected, Completes form [] label) :
    Expects form input expected input :=
  .inr ⟨[], rfl, some, holds⟩

theorem single (names : Names label kind) (more : List Kind)
    (holds : ∀ other, other.head? ≠ some .colon → form (kind :: (more ++ other)) other) :
    Expects form input [label] input :=
  here (by simp) (List.forall_mem_singleton.mpr ⟨kind, more, names, holds⟩)

theorem map (stuck : Expects form input expected rest) (lead : List Kind)
    (change : ∀ {before label}, input = before ++ rest → Completes form before label →
      Completes whole (lead ++ before) label) : Expects whole (lead ++ input) expected rest := by
  rcases stuck with exhausted | ⟨before, split, some, labels⟩
  · exact .inl exhausted
  · refine .inr ⟨lead ++ before, by rw [split, List.append_assoc], some, ?_⟩
    intro label known
    exact change split (labels label known)

theorem closed (stuck : Expects form input expected rest) (closing : List Kind)
    (noColon : closing.head? ≠ some .colon)
    (change : ∀ {unread left}, form unread (closing ++ left) → whole unread left) :
    Expects whole input expected rest := by
  refine stuck.map [] fun _ completes => ?_
  obtain ⟨kind, more, names, holds⟩ := completes
  refine ⟨kind, more ++ closing, names, ?_⟩
  intro other free
  have next : (closing ++ other).head? ≠ some .colon := by
    cases closing with
    | nil => exact free
    | cons => exact noColon
  have held := holds (closing ++ other) next
  rw [← List.append_assoc] at held
  exact change held

theorem imp (stuck : Expects form input expected rest)
    (change : ∀ {unread left}, form unread left → whole unread left) :
    Expects whole input expected rest :=
  stuck.closed [] (by simp) change

theorem past (stuck : Expects form input expected rest)
    (change : ∀ {unread left}, form unread left → whole (kind :: unread) left) :
    Expects whole (kind :: input) expected rest := by
  refine stuck.map [kind] fun _ completes => ?_
  obtain ⟨next, more, names, holds⟩ := completes
  refine ⟨next, more, names, ?_⟩
  intro other free
  exact change (holds other free)

theorem after (read : Local form input middle) (stuck : Expects later middle expected rest)
    (noColon : ∀ {unread left}, later unread left → unread.head? ≠ some .colon)
    (change : ∀ {unread between left}, form unread between → later between left →
      whole unread left) : Expects whole input expected rest := by
  obtain ⟨used, rfl, _, again⟩ := read
  refine stuck.map used fun _ completes => ?_
  obtain ⟨kind, more, names, holds⟩ := completes
  refine ⟨kind, more, names, ?_⟩
  intro other free
  have next := holds other free
  rw [List.append_assoc]
  exact change (again _ (noColon next)) next

theorem joined (read : Local form input (kind :: middle)) (noColon : kind ≠ .colon)
    (stuck : Expects later middle expected rest)
    (change : ∀ {unread between left}, form unread (kind :: between) → later between left →
      whole unread left) : Expects whole input expected rest := by
  have started : Expects (fun unread left => ∃ between, unread = kind :: between ∧
      later between left) (kind :: middle) expected rest :=
    stuck.past fun found => ⟨_, rfl, found⟩
  refine started.after read ?_ ?_
  · rintro _ left ⟨between, rfl, _⟩
    simpa using noColon
  · rintro unread _ left first ⟨between, rfl, found⟩
    exact change first found

theorem missing (read : Local form input rest) (names : Names label kind) (more : List Kind)
    (change : ∀ {unread left}, form unread (kind :: (more ++ left)) → whole unread left) :
    Expects whole input [label] rest := by
  have named : Expects (fun unread left => unread = kind :: (more ++ left)) rest [label] rest :=
    single names more fun _ _ => rfl
  refine named.after read ?_ ?_
  · rintro _ left rfl
    simpa using names.ne_colon
  · rintro unread _ left first rfl
    exact change first

end Expects

variable {budget : Nat} {field : Option String} {input rest : List Kind}
  {expected : List Expectation}

theorem expects_of_bound (stuck : bound.run input = .stuck expected rest) :
    Expects (fun unread left => ∃ text, Bound unread text left) input expected rest := by
  have word : ∀ {unread}, Expects (fun unread left => ∃ raw, unread = .word raw :: left)
      unread [.rangeBound] unread := .single .rangeBound [] fun _ _ => ⟨"*", rfl⟩
  simp only [bound, Step.run_look] at stuck
  split at stuck
  · cases stuck
  · cases stuck
  · cases stuck
    refine word.past ?_
    rintro _ left ⟨raw, rfl⟩
    exact ⟨_, .minus (spells_unescaped raw)⟩
  · cases stuck
    refine word.past ?_
    rintro _ left ⟨raw, rfl⟩
    exact ⟨_, .plus (spells_unescaped raw)⟩
  · cases stuck
  · cases stuck
  · cases stuck
    refine word.imp ?_
    rintro _ left ⟨raw, rfl⟩
    exact ⟨_, .word (spells_unescaped raw)⟩

theorem expects_of_rangeEnd (stuck : rangeEnd.run input = .stuck expected rest) :
    Expects (fun unread left => ∃ closing inclusive, Closes closing inclusive ∧
      unread = closing :: left) input expected rest := by
  simp only [rangeEnd, Step.run_look] at stuck
  split at stuck
  · cases stuck
  · cases stuck
  · cases stuck
    refine .here (by simp) (List.forall_mem_cons.mpr ⟨?_, List.forall_mem_singleton.mpr ?_⟩)
    · exact ⟨_, [], .rightBracket, fun _ _ => ⟨_, _, .bracket, rfl⟩⟩
    · exact ⟨_, [], .rightBrace, fun _ _ => ⟨_, _, .brace, rfl⟩⟩

theorem expects_of_upper {result : String → Bool → Filter}
    (stuck : (bound.bind fun high => rangeEnd.map (result high)).run input
      = .stuck expected rest) :
    Expects (fun unread left => ∃ high closing inclusive,
      Bound unread high (closing :: left) ∧ Closes closing inclusive) input expected rest := by
  rcases Step.run_bind_eq_stuck.mp stuck with stuck | ⟨high, middle, read, stuck⟩
  · refine (expects_of_bound stuck).closed [.rightBracket] (by simp) ?_
    rintro unread left ⟨high, derived⟩
    exact ⟨high, _, _, derived, .bracket⟩
  · have ending := expects_of_rangeEnd (Step.run_map_eq_stuck.mp stuck)
    refine ending.after (local_of_bound (bound_eq_done_iff.mp read)) ?_ ?_
    · rintro _ left ⟨closing, inclusive, closes, rfl⟩
      cases closes <;> simp
    · rintro unread _ left derived ⟨closing, inclusive, closes, rfl⟩
      exact ⟨high, closing, inclusive, derived, closes⟩

theorem expects_of_range {name : String} {opening : Kind} {lowInclusive : Bool}
    (opens : Opens opening lowInclusive)
    (stuck : (range name lowInclusive).run input = .stuck expected rest) :
    Expects (fun unread left => ∃ filter, Range name unread filter left) (opening :: input)
      expected rest := by
  suffices bounds : Expects (fun unread left => ∃ low middle high closing inclusive,
      Bound unread low (.upTo :: middle) ∧ Bound middle high (closing :: left) ∧
        Closes closing inclusive) input expected rest by
    refine bounds.past ?_
    rintro unread left ⟨low, middle, high, closing, inclusive, lower, upper, closes⟩
    exact ⟨_, .range opens lower upper closes⟩
  rcases Step.run_bind_eq_stuck.mp stuck with stuck | ⟨low, unread, read, stuck⟩
  · refine (expects_of_bound stuck).closed [.upTo, .word "*", .rightBracket] (by simp) ?_
    rintro unread left ⟨low, derived⟩
    exact ⟨low, _, _, _, _, derived, .word (spells_unescaped "*"), .bracket⟩
  · have lower := local_of_bound (bound_eq_done_iff.mp read)
    rcases Step.run_bind_eq_stuck.mp stuck with stuck | ⟨_, middle, taken, stuck⟩
    · obtain ⟨_, rfl, rfl⟩ := Step.run_expect_eq_stuck.mp stuck
      exact .missing lower .upTo [.word "*", .rightBracket] fun derived =>
        ⟨low, _, _, _, _, derived, .word (spells_unescaped "*"), .bracket⟩
    · obtain rfl := Step.run_expect_eq_done.mp taken
      refine .joined lower (by simp) (expects_of_upper stuck) ?_
      rintro unread middle left derived ⟨high, closing, inclusive, upper, closes⟩
      exact ⟨low, middle, high, closing, inclusive, derived, upper, closes⟩

def DerivesSome {α : Type} (budget : Nat) (part : α → Part) (input rest : List Kind) : Prop :=
  ∃ result, Derives budget (part result) input rest

theorem Expects.starting {kind : Kind} (starts : startsClause kind = true)
    (stuck : Expects (DerivesSome budget (.conjuncts field)) (kind :: input) expected rest) :
    Expects (fun unread left => ∃ first middle members, unread = first :: middle ∧
      StartsClause first ∧ Derives budget (.conjuncts field members) unread left)
      (kind :: input) expected rest := by
  refine stuck.map [] ?_
  intro before label split completes
  obtain ⟨next, more, names, holds⟩ := completes
  refine ⟨next, more, names, ?_⟩
  intro other free
  obtain ⟨members, derived⟩ := holds other free
  cases before with
  | nil =>
      have first : StartsClause next := by
        refine (starts_of_derives derived).resolve_right ?_
        rintro ⟨_, _, opens⟩
        cases opens <;> cases names
      exact ⟨_, _, members, rfl, first, derived⟩
  | cons first before =>
      obtain ⟨rfl, rfl⟩ := List.cons.inj split
      exact ⟨_, _, members, rfl, startsClause_of_derives starts derived, derived⟩

section

variable (clauses : ∀ {input expected rest},
  (clause budget field).run input = .stuck expected rest →
    Expects (DerivesSome budget (.clause field)) input expected rest)

include clauses

theorem expects_of_conjuncts
    (stuck : Step.operandsFrom conjunctGap? (clause budget field) input = .stuck expected rest) :
    Expects (DerivesSome budget (.conjuncts field)) input expected rest := by
  refine Step.operandsFrom_stuck
    (motive := fun unread => Expects (DerivesSome budget (.conjuncts field)) unread expected rest)
    ?_ ?_ stuck
  · intro unread stuck
    refine (clauses stuck).imp ?_
    rintro unread left ⟨filter, derived⟩
    exact ⟨_, .lastConjunct derived⟩
  · intro input filter unread gap read found later
    have first := local_of_derives (derives_of_clause read)
    unfold conjunctGap? at found
    split at found
    · cases found
      refine .joined first (by simp) later ?_
      rintro unread middle left derived ⟨members, more⟩
      exact ⟨_, .joinedConjunct derived more⟩
    · split at found
      · rename_i starts
        cases found
        refine (later.starting starts).after first ?_ ?_
        · rintro _ left ⟨next, middle, _, rfl, starts, _⟩
          simpa using starts.ne_colon
        · rintro unread _ left derived ⟨next, middle, members, rfl, starts, more⟩
          exact ⟨_, .adjacentConjunct derived starts more⟩
      · cases found
    · cases found

theorem expects_of_disjuncts
    (stuck : Step.operandsFrom disjunctGap? (conjunction (clause budget field)) input
      = .stuck expected rest) :
    Expects (DerivesSome budget (.disjuncts field)) input expected rest := by
  refine Step.operandsFrom_stuck
    (motive := fun unread => Expects (DerivesSome budget (.disjuncts field)) unread expected rest)
    ?_ ?_ stuck
  · intro unread stuck
    refine (expects_of_conjuncts clauses (Step.run_map_eq_stuck.mp stuck)).imp ?_
    rintro unread left ⟨conjuncts, derived⟩
    exact ⟨_, .lastDisjunct derived (joins_conjuncts derived)⟩
  · intro input filter unread gap read found later
    obtain ⟨conjuncts, read, _⟩ := Step.run_map_eq_done.mp read
    have first := local_of_derives (conjuncts_of_run derives_of_clause read)
    unfold disjunctGap? at found
    split at found
    · cases found
      refine .joined first (by simp) later ?_
      rintro unread middle left derived ⟨members, more⟩
      exact ⟨_, .joinedDisjunct derived (joins_conjuncts derived) more⟩
    · cases found

theorem expects_of_group (stuck : (group (clause budget field)).run input = .stuck expected rest) :
    Expects (fun unread left => ∃ members,
      Derives budget (.disjuncts field members) unread (.rightParen :: left))
      input expected rest := by
  rcases Step.run_bind_eq_stuck.mp stuck with stuck | ⟨_, middle, read, stuck⟩
  · exact (expects_of_disjuncts clauses (Step.run_map_eq_stuck.mp stuck)).closed [.rightParen]
      (by simp) fun found => found
  · obtain ⟨_, rfl, rfl⟩ := Step.run_expect_eq_stuck.mp (Step.run_map_eq_stuck.mp stuck)
    obtain ⟨members, read, _⟩ := Step.run_map_eq_done.mp read
    have inner := local_of_derives (disjuncts_of_run derives_of_clause read)
    exact .missing inner .rightParen [] fun derived => ⟨members, derived⟩

end

theorem expects_of_value {name : String}
    (clauses : ∀ {input expected rest},
      (clause budget (some name)).run input = .stuck expected rest →
        Expects (DerivesSome budget (.clause (some name))) input expected rest)
    (stuck : (value name (clause budget (some name))).run input = .stuck expected rest) :
    Expects (DerivesSome budget (.value name)) input expected rest := by
  simp only [value, Step.run_look] at stuck
  split at stuck
  · cases stuck
  · cases stuck
  · cases stuck
  · refine (expects_of_group clauses stuck).past ?_
    rintro unread left ⟨members, derived⟩
    exact ⟨_, .groupValue derived (joins_disjuncts derived)⟩
  · refine (expects_of_range .bracket stuck).imp ?_
    rintro unread left ⟨filter, derived⟩
    exact ⟨_, .rangeValue derived⟩
  · refine (expects_of_range .brace stuck).imp ?_
    rintro unread left ⟨filter, derived⟩
    exact ⟨_, .rangeValue derived⟩
  · cases stuck
    exact .single (@Names.closingQuote "") [] fun _ _ => ⟨_, .phraseValue (spells_unescaped _)⟩
  · cases stuck
    exact .single (@Names.fieldValue "x") [] fun _ _ =>
      ⟨_, .wordValue (wordValue_eq_iff.mp rfl)⟩

theorem expects_of_clause (stuck : (clause budget field).run input = .stuck expected rest) :
    Expects (DerivesSome budget (.clause field)) input expected rest := by
  induction budget generalizing field input expected rest with
  | zero => cases stuck; exact .inl rfl
  | succ budget ih =>
      have word : ∀ {unread}, Expects (DerivesSome (budget + 1) (.clause field))
          unread [.term] unread :=
        .single (@Names.term "x") [] fun _ free => ⟨_, .word free (spells_unescaped _)⟩
      have negated : ∀ {sign : Kind} {unread}, Negates sign →
          ((clause budget field).map Filter.not).run unread = .stuck expected rest →
          Expects (DerivesSome (budget + 1) (.clause field)) (sign :: unread) expected rest := by
        intro sign unread negates stuck
        refine (ih (Step.run_map_eq_stuck.mp stuck)).past ?_
        rintro unread left ⟨filter, derived⟩
        exact ⟨_, .negation negates derived⟩
      have ranged : ∀ {name opening inclusive unread}, field = some name →
          Opens opening inclusive → (range name inclusive).run unread = .stuck expected rest →
          Expects (DerivesSome (budget + 1) (.clause field)) (opening :: unread) expected rest := by
        rintro name opening inclusive unread rfl opens stuck
        refine (expects_of_range opens stuck).imp ?_
        rintro unread left ⟨filter, derived⟩
        exact ⟨_, .range derived⟩
      simp only [clause, Step.run_look] at stuck
      split at stuck
      · exact negated .not stuck
      · exact negated .minus stuck
      · exact negated .bang stuck
      · refine (ih stuck).past ?_
        rintro unread left ⟨filter, derived⟩
        exact ⟨_, .affirmation derived⟩
      · refine (expects_of_group ih stuck).past ?_
        rintro unread left ⟨members, derived⟩
        exact ⟨_, .group derived (joins_disjuncts derived)⟩
      · rename_i raw tail
        have valued : Expects (fun unread left => ∃ filter,
            Derives (budget + 1) (.clause field filter) (.word raw :: unread) left)
            (.colon :: tail) expected rest := by
          refine (expects_of_value ih stuck).past ?_
          rintro unread left ⟨filter, derived⟩
          exact ⟨_, .fielded (spells_unescaped raw) derived⟩
        exact valued.past fun found => found
      · cases stuck
      · cases stuck
      · cases stuck
      · split at stuck
        · exact ranged rfl .bracket stuck
        · cases stuck
          exact word
      · split at stuck
        · exact ranged rfl .brace stuck
        · cases stuck
          exact word
      · cases stuck
        exact .single (@Names.closingQuote "") [] fun _ _ => ⟨_, .phrase (spells_unescaped _)⟩
      · cases stuck
        exact word

theorem complete_within (input : List Kind) : (complete input).rest <:+ input := by
  have within := filter.within input
  unfold complete
  split
  · rename_i read
    rwa [read] at within
  · exact within

theorem completed_of_stuck (stuck : complete input = .stuck expected rest)
    (other : expected ≠ [.shallowerNesting]) :
    ∃ before, input = before ++ rest ∧ expected ≠ [] ∧ ∀ label ∈ expected, ∃ more,
      Begins label more ∧ ∃ result, filter.run (before ++ more) = .done result [] := by
  unfold complete at stuck
  split at stuck
  · rename_i result kind left read
    cases stuck
    obtain ⟨members, read, _⟩ := Step.run_map_eq_done.mp read
    obtain ⟨before, split, _, again⟩ := local_of_derives (disjuncts_of_run derives_of_clause read)
    have whole := again [] (by simp)
    have complete := run_filter_iff.mpr ⟨members, whole, joins_disjuncts whole⟩
    exact ⟨before, split, by simp, List.forall_mem_singleton.mpr ⟨[], .endOfInput, _, complete⟩⟩
  · have found := expects_of_disjuncts expects_of_clause (Step.run_map_eq_stuck.mp stuck)
    obtain ⟨before, split, some, labels⟩ := found.resolve_left other
    refine ⟨before, split, some, fun label known => ?_⟩
    obtain ⟨kind, more, names, holds⟩ := labels label known
    obtain ⟨members, derived⟩ := holds [] (by simp)
    rw [List.append_nil] at derived
    have complete := run_filter_iff.mpr ⟨members, derived, joins_disjuncts derived⟩
    exact ⟨kind :: more, .kind names, _, complete⟩

end Reading

namespace Reader

variable {tokens : List Token} {fault : Fault} {after : Reader}

theorem stuck_of_read (failed : (Reader.ofTokens tokens).read = (.error fault, after)) :
    ∃ before, tokens = before ++ after.unread ∧
      Reading.complete (tokens.map Token.kind)
        = .stuck fault.expected (after.unread.map Token.kind) := by
  have suffix := Reading.complete_within (tokens.map Token.kind)
  simp only [read, ofTokens] at failed
  cases reply : Reading.complete (tokens.map Token.kind) with
  | done result rest => simp [reply] at failed
  | stuck expected rest =>
      simp only [reply, Reply.rest] at failed suffix
      cases failed
      have kinds := List.suffix_iff_eq_drop.mp suffix
      rw [List.length_map, ← List.map_drop] at kinds
      exact ⟨_, (List.take_append_drop _ _).symm, congrArg _ kinds⟩

theorem read_fault_truthful (failed : (Reader.ofTokens tokens).read = (.error fault, after))
    (other : fault.expected ≠ [.shallowerNesting]) :
    ∃ before, tokens = before ++ after.unread ∧
      (∃ more filter, Filter.ofTokens (before ++ more) = .ok filter) ∧
      ∀ label ∈ fault.expected, ∃ more filter, Begins label (more.map Token.kind) ∧
        Filter.ofTokens (before ++ more) = .ok filter := by
  obtain ⟨before, split, stuck⟩ := stuck_of_read failed
  obtain ⟨kinds, kindsSplit, some, labels⟩ := Reading.completed_of_stuck stuck other
  rw [split, List.map_append] at kindsSplit
  obtain rfl := List.append_cancel_right kindsSplit
  have continued : ∀ label ∈ fault.expected, ∃ more filter,
      Begins label (more.map Token.kind) ∧ Filter.ofTokens (before ++ more) = .ok filter := by
    intro label known
    obtain ⟨more, begins, filter, read⟩ := labels label known
    have same : (more.map fun kind => Token.mk kind 0 0).map Token.kind = more := by
      rw [List.map_map]
      exact List.map_id more
    refine ⟨more.map fun kind => ⟨kind, 0, 0⟩, filter, by rwa [same], ?_⟩
    rw [Filter.ofTokens, read_ofTokens_iff, Reading.complete_eq_done_iff, List.map_append, same]
    exact read
  refine ⟨before, split, ?_, continued⟩
  obtain ⟨label, known⟩ := List.exists_mem_of_ne_nil _ some
  obtain ⟨more, filter, _, accepted⟩ := continued label known
  exact ⟨more, filter, accepted⟩

theorem read_fault_truthful_range :
    let text := "NOT (a:[-1 TO 5 b"
    let expected := [Expectation.rightBracket, .rightBrace]
    (Reader.ofTokens (Token.ofText text)).read.1 = .error ⟨16, expected, some (.word "b")⟩ ∧
      ∀ label ∈ expected, ∃ more filter, Begins label (more.map Token.kind) ∧
        Filter.ofTokens ((Token.ofText text).dropLast ++ more) = .ok filter := by
  intro text expected
  have failed : (Reader.ofTokens (Token.ofText text)).read = (.error ⟨16, expected,
      some (.word "b")⟩, { unread := [⟨.word "b", 16, 17⟩], endOffset := 17 }) := by cbv
  obtain ⟨before, split, _, continued⟩ := read_fault_truthful failed (by decide)
  rw [failed, split, List.dropLast_concat]
  exact ⟨rfl, continued⟩

end Reader

end ScopedFilter
