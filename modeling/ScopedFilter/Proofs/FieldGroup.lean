import Mathlib
import ScopedFilter.Proofs.ParsedFilter

/-!
Groups on a field. The field is that of every test inside that has none of its own, and nothing else
in the group depends on it. A word in a group is always a value; directly behind its field it may
also be a comparison, or stand for everything. Main statements: `ofTokens_fieldGroup` and
`ofTokens_distributed_iff`.
-/

namespace ScopedFilter

open Text

/-- The test on the field, unless it has a field of its own. -/
def Leaf.inherit (field : String) : Leaf → Leaf
  | term own value => term (some (own.getD field)) value
  | phrase own text => phrase (some (own.getD field)) text
  | range own low high inclusive => range own low high inclusive

namespace Grammar

open ScopedFilter.Filter

section Inheritance

theorem Joins.mapLeaves_and {change : Leaf → Leaf} {members : List Filter} {filter : Filter}
    (joins : Joins and members filter) :
    Joins and (members.map (mapLeaves change)) (filter.mapLeaves change) := by
  cases joins with
  | single => exact .single
  | several =>
      rw [mapLeaves]
      exact .several

theorem Joins.mapLeaves_or {change : Leaf → Leaf} {members : List Filter} {filter : Filter}
    (joins : Joins or members filter) :
    Joins or (members.map (mapLeaves change)) (filter.mapLeaves change) := by
  cases joins with
  | single => exact .single
  | several =>
      rw [mapLeaves]
      exact .several

def Part.inherit (name : String) : Part → Part
  | clause field filter => clause (some (field.getD name)) (filter.mapLeaves (.inherit name))
  | conjuncts field members =>
      conjuncts (some (field.getD name)) (members.map (mapLeaves (.inherit name)))
  | disjuncts field members =>
      disjuncts (some (field.getD name)) (members.map (mapLeaves (.inherit name)))
  | value field filter => value field (filter.mapLeaves (.inherit name))

variable {name field : String} {input rest : List Kind} {filter : Filter}

theorem mapLeaves_inherit_of_range (derived : Range field input filter rest) :
    filter.mapLeaves (.inherit name) = filter := by
  cases derived
  rw [mapLeaves, Leaf.inherit]

theorem mapLeaves_inherit_of_wordValue {raw : String} (derived : WordValue field raw filter) :
    filter.mapLeaves (.inherit name) = filter := by
  cases derived with
  | everything => rw [mapLeaves]
  | comparison compared =>
      generalize raw.toList = characters at compared
      cases compared <;> rw [mapLeaves, Leaf.inherit]
  | term _ _ _ => rw [mapLeaves, Leaf.inherit, Option.getD_some]

theorem derives_inherit {budget : Nat} {part : Part} (derived : Derives budget part input rest) :
    Derives budget (part.inherit name) input rest := by
  induction derived with
  | negation sign _ ih =>
      rw [Part.inherit, mapLeaves]
      exact .negation sign ih
  | affirmation _ ih => exact .affirmation ih
  | group _ joins ih =>
      rw [Part.inherit, mapLeaves]
      exact .group ih joins.mapLeaves_or
  | fielded spells _ ih => exact .fielded spells ih
  | word noColon spells =>
      rw [Part.inherit, mapLeaves]
      exact .word noColon spells
  | upTo =>
      rw [Part.inherit, mapLeaves]
      exact .upTo
  | phrase spells =>
      rw [Part.inherit, mapLeaves]
      exact .phrase spells
  | range found =>
      rw [Part.inherit, mapLeaves_inherit_of_range found]
      exact .range found
  | wordValue meant =>
      rw [Part.inherit, mapLeaves_inherit_of_wordValue meant]
      exact .wordValue meant
  | upToValue =>
      rw [Part.inherit, mapLeaves]
      exact .upToValue
  | phraseValue spells =>
      rw [Part.inherit, mapLeaves]
      exact .phraseValue spells
  | groupValue _ joins ih =>
      rw [Part.inherit, mapLeaves]
      exact .groupValue ih joins.mapLeaves_or
  | rangeValue found =>
      rw [Part.inherit, mapLeaves_inherit_of_range found]
      exact .rangeValue found
  | lastConjunct _ ih => exact .lastConjunct ih
  | joinedConjunct _ _ first later => exact .joinedConjunct first later
  | adjacentConjunct _ starts _ first later => exact .adjacentConjunct first starts later
  | lastDisjunct _ joins ih => exact .lastDisjunct ih joins.mapLeaves_and
  | joinedDisjunct _ joins _ first later => exact .joinedDisjunct first joins.mapLeaves_and later

end Inheritance

section Enclosing

variable {budget : Nat} {raw : String} {members : List Filter} {inner : Filter}
  {input : List Kind}

theorem derives_single {field : Option String} {filter : Filter} {rest : List Kind}
    (derived : Derives budget (.clause field filter) input rest) :
    Derives budget (.disjuncts field [filter]) input rest :=
  .lastDisjunct (.lastConjunct derived) .single

theorem derives_fieldGroup
    (derived : Derives budget (.disjuncts (some (unescaped raw)) members) input [])
    (joins : Joins or members inner) :
    Derives (budget + 1) (.disjuncts Option.none [group inner])
      (.word raw :: .colon :: .leftParen :: (input ++ [.rightParen])) [] := by
  obtain ⟨used, rfl, _, holds⟩ := local_of_derives derived
  rw [List.append_nil]
  have inside := holds [.rightParen] (by simp)
  exact derives_single (.fielded (spells_unescaped raw) (.groupValue inside joins))

end Enclosing

end Grammar

namespace Filter

open Grammar

/-- A group on a field is read as the filter inside it, every test of which is on that field if it
has none of its own. The filter inside may lie one level less deep than one that stands alone. -/
theorem ofTokens_fieldGroup {tokens whole : List Token} {raw : String} {filter : Filter}
    {members : List Filter} (read : Filter.ofTokens tokens = .ok filter)
    (shallow : Derives 127 (.disjuncts Option.none members) (tokens.map Token.kind) [])
    (enclosed : whole.map Token.kind =
      .word raw :: .colon :: .leftParen :: (tokens.map Token.kind ++ [.rightParen])) :
    Filter.ofTokens whole = .ok (group (filter.mapLeaves (.inherit (unescaped raw)))) := by
  obtain ⟨found, derived, rfl⟩ := ofTokens_ok_iff.mp read
  cases disjuncts_unique derived shallow
  have inherited : Derives 127 ((Part.disjuncts Option.none members).inherit (unescaped raw))
      (tokens.map Token.kind) [] := derives_inherit shallow
  rw [ofTokens_ok_iff, enclosed]
  exact ⟨_, derives_fieldGroup inherited (joins_disjuncts shallow).mapLeaves_or, rfl⟩

theorem ofTokens_fieldGroup_nested :
    let text := "a >5 \"b c\" OR -(x:d y:(e f)) *:*"
    let whole := "s\\:t:(a >5 \"b c\" OR -(x:d y:(e f)) *:*)"
    let term (field : Option String) (value : String) := leaf (.term field value)
    let first (field : Option String) :=
      and [term field "a", term field ">5", leaf (.phrase field "b c")]
    let last := and [not (group (and [term (some "x") "d",
      group (and [term (some "y") "e", term (some "y") "f"])])), all]
    Filter.ofTokens (Token.ofText text) = .ok (or [first Option.none, last]) ∧
      Derives 127 (.disjuncts Option.none [first Option.none, last])
        ((Token.ofText text).map Token.kind) [] ∧
      Filter.ofTokens (Token.ofText whole) = .ok (group (or [first (some "s:t"), last])) := by
  intro text whole term first last
  have shallow : Derives 127 (.disjuncts Option.none [first Option.none, last])
      ((Token.ofText text).map Token.kind) [] :=
    Reading.disjuncts_of_run Reading.derives_of_clause (by cbv)
  have read : Filter.ofTokens (Token.ofText text) = .ok (or [first Option.none, last]) :=
    ofTokens_ok_iff.mpr ⟨_, derives_mono (by decide) shallow, rfl⟩
  have enclosed : (Token.ofText whole).map Token.kind = .word "s\\:t" :: .colon :: .leftParen ::
      ((Token.ofText text).map Token.kind ++ [.rightParen]) := by cbv
  have inherited : (or [first Option.none, last]).mapLeaves (.inherit (unescaped "s\\:t")) =
      or [first (some "s:t"), last] := by cbv
  refine ⟨read, shallow, ?_⟩
  rw [← inherited]
  exact ofTokens_fieldGroup read shallow enclosed

end Filter

section Distribution

/-- What may stand behind a field and its colon, or in a group on that field, as a single value. -/
inductive FieldValue where
  | word (raw : String)
  | phrase (raw : String)
  | upTo

namespace FieldValue

open ScopedFilter.Grammar

def kind : FieldValue → Kind
  | word raw => .word raw
  | phrase raw => .phrase raw
  | upTo => .upTo

def direct (field : String) : FieldValue → Filter
  | word raw => Reading.wordValue field raw
  | phrase raw => .leaf (.phrase (some field) (unescaped raw))
  | upTo => .leaf (.term (some field) "TO")

def inside (field : String) : FieldValue → Filter
  | word raw => .leaf (.term (some field) (unescaped raw))
  | phrase raw => .leaf (.phrase (some field) (unescaped raw))
  | upTo => .leaf (.term (some field) "TO")

/-- The value is neither a comparison nor the star on the field star. -/
def Plain (field : String) : FieldValue → Prop
  | word raw => ¬(field = "*" ∧ raw = "*") ∧ ∀ leaf, ¬Comparison field raw.toList leaf
  | _ => True

theorem direct_eq_inside_iff {field : String} {value : FieldValue} :
    value.direct field = value.inside field ↔ value.Plain field := by
  cases value with
  | word raw =>
      rw [direct, inside, Reading.wordValue_eq_iff, Plain]
      constructor
      · intro meant
        cases meant with
        | comparison compared =>
            generalize raw.toList = characters at compared
            cases compared
        | term other plain _ => exact ⟨other, plain⟩
      · rintro ⟨other, plain⟩
        exact .term other plain (spells_unescaped raw)
  | phrase _ => exact iff_of_true rfl trivial
  | upTo => exact iff_of_true rfl trivial

variable {budget : Nat} {raw : String} {rest : List Kind}

theorem derives_direct (value : FieldValue) :
    Derives (budget + 1) (.clause none (value.direct (unescaped raw)))
      (.word raw :: .colon :: value.kind :: rest) rest := by
  cases value with
  | word _ =>
      exact .fielded (spells_unescaped _) (.wordValue (Reading.wordValue_eq_iff.mp rfl))
  | phrase _ => exact .fielded (spells_unescaped _) (.phraseValue (spells_unescaped _))
  | upTo => exact .fielded (spells_unescaped _) .upToValue

theorem derives_inside (value : FieldValue) {field : String} (free : rest.head? ≠ some .colon) :
    Derives (budget + 1) (.clause (some field) (value.inside field)) (value.kind :: rest) rest := by
  cases value with
  | word _ => exact .word free (spells_unescaped _)
  | phrase _ => exact .phrase (spells_unescaped _)
  | upTo => exact .upTo

end FieldValue

namespace Grammar

open ScopedFilter.Filter

theorem derives_alternated {budget : Nat} {field : Option String} {values : List FieldValue}
    {kinds : FieldValue → List Kind} {filter : FieldValue → Filter} (nonempty : values ≠ [])
    (each : ∀ {value rest}, rest.head? ≠ some .colon →
      Derives budget (.clause field (filter value)) (kinds value ++ rest) rest)
    {rest : List Kind} (free : rest.head? ≠ some .colon) :
    Derives budget (.disjuncts field (values.map filter))
      ([.or].intercalate (values.map kinds) ++ rest) rest := by
  induction values with
  | nil => exact absurd rfl nonempty
  | cons value values ih =>
      cases values with
      | nil =>
          rw [List.map_singleton, List.map_singleton, List.intercalate_singleton]
          exact derives_single (each free)
      | cons next values =>
          have later := ih (by simp)
          simp only [List.map_cons, List.intercalate_cons_cons, List.append_assoc] at later ⊢
          exact .joinedDisjunct (.lastConjunct (each (by simp))) .single later

end Grammar

namespace Filter

theorem joined_or_map_inj {values : List FieldValue} {first second : FieldValue → Filter} :
    joined or none (values.map first) = joined or none (values.map second) ↔
      ∀ value ∈ values, first value = second value := by
  rw [← List.map_inj_left]
  rcases values with _ | ⟨value, _ | ⟨next, values⟩⟩ <;> simp [joined]

open Grammar

/-- The field written in front of each of several values may be written once, in front of a group of
them, unless one of them means more behind a field than a value. -/
theorem ofTokens_distributed_iff {raw : String} {values : List FieldValue} (some : values ≠ [])
    {apart together : List Token} {filter : Filter}
    (apartKinds : apart.map Token.kind =
      [.or].intercalate (values.map fun value => [.word raw, .colon, value.kind]))
    (togetherKinds : together.map Token.kind = .word raw :: .colon :: .leftParen ::
      ([.or].intercalate (values.map fun value => [value.kind]) ++ [.rightParen]))
    (read : Filter.ofTokens apart = .ok filter) :
    (Filter.ofTokens together = .ok (group filter) ↔
        ∀ value ∈ values, value.Plain (unescaped raw)) ∧
      Filter.ofTokens together =
        .ok (group (joined or none (values.map (FieldValue.inside (unescaped raw))))) := by
  have direct : Derives Reading.maxNesting
      (.disjuncts Option.none (values.map (FieldValue.direct (unescaped raw))))
      (apart.map Token.kind) [] := by
    rw [apartKinds, ← List.append_nil (List.intercalate _ _)]
    exact derives_alternated some (fun _ => FieldValue.derives_direct _) (by simp)
  have inside : Derives 127
      (.disjuncts (.some (unescaped raw)) (values.map (FieldValue.inside (unescaped raw))))
      ([.or].intercalate (values.map fun value => [value.kind])) [] := by
    rw [← List.append_nil (List.intercalate _ _)]
    exact derives_alternated some (fun free => FieldValue.derives_inside _ free) (by simp)
  have grouped : Filter.ofTokens together =
      .ok (group (joined or none (values.map (FieldValue.inside (unescaped raw))))) := by
    rw [ofTokens_ok_iff, togetherKinds]
    exact ⟨_, derives_fieldGroup inside (joins_disjuncts inside), rfl⟩
  obtain ⟨members, derived, rfl⟩ := ofTokens_ok_iff.mp read
  cases disjuncts_unique derived direct
  refine ⟨?_, grouped⟩
  rw [grouped, Except.ok.injEq, group.injEq, eq_comm, joined_or_map_inj]
  exact forall₂_congr fun _ _ => FieldValue.direct_eq_inside_iff

theorem ofTokens_distributed_iff_escaped :
    let apart := "a\\b:x* OR a\\b:\"y z\" OR a\\b:TO OR a\\b:\\>5"
    let together := "a\\b:(x* OR \"y z\" OR TO OR \\>5)"
    let values : List FieldValue := [.word "x*", .phrase "y z", .upTo, .word "\\>5"]
    let term (value : String) := leaf (.term (some "ab") value)
    let filter := or [term "x*", leaf (.phrase (some "ab") "y z"), term "TO", term ">5"]
    (∀ value ∈ values, value.Plain "ab") ∧
      Filter.ofTokens (Token.ofText apart) = .ok filter ∧
      Filter.ofTokens (Token.ofText together) = .ok (group filter) := by
  intro apart together values term filter
  have nonempty : values ≠ [] := List.cons_ne_nil _ _
  have apartKinds : (Token.ofText apart).map Token.kind =
      [.or].intercalate (values.map fun value => [.word "a\\b", .colon, value.kind]) := by cbv
  have togetherKinds : (Token.ofText together).map Token.kind =
      .word "a\\b" :: .colon :: .leftParen ::
        ([.or].intercalate (values.map fun value => [value.kind]) ++ [.rightParen]) := by cbv
  have read : Filter.parse apart = .ok filter := by cbv
  have field : unescaped "a\\b" = "ab" := by cbv
  have plain : ∀ value ∈ values, value.Plain (unescaped "a\\b") := by
    rw [field]
    intro value known
    simp only [values, List.mem_cons, List.not_mem_nil, or_false] at known
    rcases known with rfl | rfl | rfl | rfl
    · exact FieldValue.direct_eq_inside_iff.mp (by cbv)
    · trivial
    · trivial
    · exact FieldValue.direct_eq_inside_iff.mp (by cbv)
  refine ⟨field ▸ plain, read, ?_⟩
  exact (ofTokens_distributed_iff nonempty apartKinds togetherKinds read).1.mpr plain

theorem grouped_comparison_is_word :
    let apart := "count:>5 OR count:7"
    let together := "count:(>5 OR 7)"
    let values : List FieldValue := [.word ">5", .word "7"]
    let range := leaf (.range "count" "5" "*" ⟨false, true⟩)
    let seven := leaf (.term (some "count") "7")
    (Token.ofText apart).map Token.kind =
        [.or].intercalate (values.map fun value => [.word "count", .colon, value.kind]) ∧
      (Token.ofText together).map Token.kind = .word "count" :: .colon :: .leftParen ::
        ([.or].intercalate (values.map fun value => [value.kind]) ++ [.rightParen]) ∧
      Filter.ofTokens (Token.ofText apart) = .ok (or [range, seven]) ∧
      Filter.ofTokens (Token.ofText together) ≠ .ok (group (or [range, seven])) := by
  intro apart together values range seven
  have grouped : Filter.parse together =
      .ok (group (or [leaf (.term (some "count") ">5"), seven])) := by cbv
  have read : Filter.parse apart = .ok (or [range, seven]) := by cbv
  refine ⟨by cbv, by cbv, read, ?_⟩
  intro same
  have grouped := same.symm.trans grouped
  simp [range] at grouped

end Filter

end Distribution

end ScopedFilter
