import ScopedFilter.Filter.Basic
import ScopedFilter.Text.Spelling

/-!
The grammar of queries, as a relation between the kinds ahead, the filter that they mean and the
kinds left over. It says nothing about how far to read: the same kinds may derive a shorter and a
longer conjunction. The number bounds how deep clauses lie inside one another. What is written
stands for a value in `Spells`, operands for a filter in `Joins`; both have rules of their own.
-/

namespace ScopedFilter.Grammar

open Text

/-- A backslash stands for the character after it, and for nothing at the end. -/
inductive Unescapes : List Char → List Char → Prop
  | nothing : Unescapes [] []
  | ending : Unescapes ['\\'] []
  | guarded {char raw value} : Unescapes raw value → Unescapes ('\\' :: char :: raw) (char :: value)
  | bare {char raw value} : char ≠ '\\' → Unescapes raw value →
      Unescapes (char :: raw) (char :: value)

def Spells (raw value : String) : Prop := Unescapes raw.toList value.toList

/-- A single operand stands for itself; two or more are the members of a node. -/
inductive Joins (node : List Filter → Filter) : List Filter → Filter → Prop
  | single {operand} : Joins node [operand] operand
  | several {first second rest} :
      Joins node (first :: second :: rest) (node (first :: second :: rest))

inductive Bound : List Kind → String → List Kind → Prop
  | word {raw value rest} : Spells raw value → Bound (.word raw :: rest) value rest
  | phrase {raw value rest} : Spells raw value → Bound (.phrase raw :: rest) value rest
  | minus {raw value rest} : Spells raw value →
      Bound (.minus :: .word raw :: rest) ("-" ++ value) rest
  | plus {raw value rest} : Spells raw value →
      Bound (.plus :: .word raw :: rest) ("+" ++ value) rest

inductive Opens : Kind → Bool → Prop
  | bracket : Opens .leftBracket true
  | brace : Opens .leftBrace false

inductive Closes : Kind → Bool → Prop
  | bracket : Closes .rightBracket true
  | brace : Closes .rightBrace false

inductive Range (field : String) : List Kind → Filter → List Kind → Prop
  | range {opening closing input middle rest low high lowInclusive highInclusive} :
      Opens opening lowInclusive → Bound input low (.upTo :: middle) →
      Bound middle high (closing :: rest) → Closes closing highInclusive →
      Range field (opening :: input)
        (.leaf (.range field low high ⟨lowInclusive, highInclusive⟩)) rest

inductive Comparison (field : String) : List Char → Leaf → Prop
  | atLeast {bound low} : bound ≠ [] → Unescapes bound low.toList →
      Comparison field ('>' :: '=' :: bound) (.range field low "*" ⟨true, true⟩)
  | atMost {bound high} : bound ≠ [] → Unescapes bound high.toList →
      Comparison field ('<' :: '=' :: bound) (.range field "*" high ⟨true, true⟩)
  | above {bound low} : bound ≠ [] → bound.head? ≠ some '=' → Unescapes bound low.toList →
      Comparison field ('>' :: bound) (.range field low "*" ⟨false, true⟩)
  | below {bound high} : bound ≠ [] → bound.head? ≠ some '=' → Unescapes bound high.toList →
      Comparison field ('<' :: bound) (.range field "*" high ⟨true, false⟩)

inductive WordValue : String → String → Filter → Prop
  | everything : WordValue "*" "*" .all
  | comparison {field raw leaf} : Comparison field raw.toList leaf →
      WordValue field raw (.leaf leaf)
  | term {field raw value} : ¬(field = "*" ∧ raw = "*") →
      (∀ leaf, ¬Comparison field raw.toList leaf) → Spells raw value →
      WordValue field raw (.leaf (.term (some field) value))

/-- The kinds before which the word between two conjuncts may be left out. -/
inductive StartsClause : Kind → Prop
  | word {raw} : StartsClause (.word raw)
  | phrase {raw} : StartsClause (.phrase raw)
  | upTo : StartsClause .upTo
  | leftParen : StartsClause .leftParen
  | not : StartsClause .not
  | minus : StartsClause .minus
  | plus : StartsClause .plus
  | bang : StartsClause .bang

inductive Negates : Kind → Prop
  | not : Negates .not
  | minus : Negates .minus
  | bang : Negates .bang

/-- What is derived: a clause, the members of a conjunction or a disjunction of clauses, each with
the field they inherit, or what follows a field and its colon. -/
inductive Part where
  | clause (field : Option String) (filter : Filter)
  | conjuncts (field : Option String) (members : List Filter)
  | disjuncts (field : Option String) (members : List Filter)
  | value (field : String) (filter : Filter)

inductive Derives : Nat → Part → List Kind → List Kind → Prop
  | negation {budget field sign input filter rest} : Negates sign →
      Derives budget (.clause field filter) input rest →
      Derives (budget + 1) (.clause field (.not filter)) (sign :: input) rest
  | affirmation {budget field input filter rest} :
      Derives budget (.clause field filter) input rest →
      Derives (budget + 1) (.clause field filter) (.plus :: input) rest
  | group {budget field input members inner rest} :
      Derives budget (.disjuncts field members) input (.rightParen :: rest) →
      Joins .or members inner →
      Derives (budget + 1) (.clause field (.group inner)) (.leftParen :: input) rest
  | fielded {budget field raw name input filter rest} : Spells raw name →
      Derives budget (.value name filter) input rest →
      Derives (budget + 1) (.clause field filter) (.word raw :: .colon :: input) rest
  | word {budget field raw value rest} : rest.head? ≠ some .colon → Spells raw value →
      Derives (budget + 1) (.clause field (.leaf (.term field value))) (.word raw :: rest) rest
  | upTo {budget field rest} :
      Derives (budget + 1) (.clause field (.leaf (.term field "TO"))) (.upTo :: rest) rest
  | phrase {budget field raw value rest} : Spells raw value →
      Derives (budget + 1) (.clause field (.leaf (.phrase field value))) (.phrase raw :: rest) rest
  | range {budget field input filter rest} : Range field input filter rest →
      Derives (budget + 1) (.clause (some field) filter) input rest
  | wordValue {budget field raw filter rest} : WordValue field raw filter →
      Derives budget (.value field filter) (.word raw :: rest) rest
  | upToValue {budget field rest} :
      Derives budget (.value field (.leaf (.term (some field) "TO"))) (.upTo :: rest) rest
  | phraseValue {budget field raw value rest} : Spells raw value →
      Derives budget (.value field (.leaf (.phrase (some field) value))) (.phrase raw :: rest) rest
  | groupValue {budget field input members inner rest} :
      Derives budget (.disjuncts (some field) members) input (.rightParen :: rest) →
      Joins .or members inner →
      Derives budget (.value field (.group inner)) (.leftParen :: input) rest
  | rangeValue {budget field input filter rest} : Range field input filter rest →
      Derives budget (.value field filter) input rest
  | lastConjunct {budget field input filter rest} :
      Derives budget (.clause field filter) input rest →
      Derives budget (.conjuncts field [filter]) input rest
  | joinedConjunct {budget field input filter middle members rest} :
      Derives budget (.clause field filter) input (.and :: middle) →
      Derives budget (.conjuncts field members) middle rest →
      Derives budget (.conjuncts field (filter :: members)) input rest
  | adjacentConjunct {budget field input filter first middle members rest} :
      Derives budget (.clause field filter) input (first :: middle) → StartsClause first →
      Derives budget (.conjuncts field members) (first :: middle) rest →
      Derives budget (.conjuncts field (filter :: members)) input rest
  | lastDisjunct {budget field input conjuncts member rest} :
      Derives budget (.conjuncts field conjuncts) input rest → Joins .and conjuncts member →
      Derives budget (.disjuncts field [member]) input rest
  | joinedDisjunct {budget field input conjuncts member middle members rest} :
      Derives budget (.conjuncts field conjuncts) input (.or :: middle) →
      Joins .and conjuncts member → Derives budget (.disjuncts field members) middle rest →
      Derives budget (.disjuncts field (member :: members)) input rest

theorem unescapes_plain (raw : List Char) :
    Unescapes raw (plain false raw) ∧ Unescapes ('\\' :: raw) (plain true raw) := by
  induction raw with
  | nil => exact ⟨.nothing, .ending⟩
  | cons char raw ih =>
      refine ⟨?_, .guarded ih.1⟩
      by_cases backslash : char = '\\'
      · simpa [plain, backslash] using ih.2
      · simpa [plain, backslash] using Unescapes.bare backslash ih.1

theorem unescapes_iff {raw value : List Char} : Unescapes raw value ↔ plain false raw = value := by
  constructor
  · intro unescapes
    induction unescapes with
    | nothing => rfl
    | ending => rfl
    | guarded _ ih => simp [plain, ih]
    | bare other _ ih => simp [plain, other, ih]
  · rintro rfl
    exact (unescapes_plain raw).1

theorem unescapes_toList_iff {raw : List Char} {value : String} :
    Unescapes raw value.toList ↔ String.ofList (plain false raw) = value := by
  rw [unescapes_iff, ← String.toList_inj, String.toList_ofList]

theorem unescapes_ofList (raw : List Char) :
    Unescapes raw (String.ofList (plain false raw)).toList := unescapes_toList_iff.mpr rfl

theorem spells_iff {raw value : String} : Spells raw value ↔ unescaped raw = value :=
  unescapes_toList_iff

theorem spells_unescaped (raw : String) : Spells raw (unescaped raw) := spells_iff.mpr rfl

theorem Joins.eq_joined {node : List Filter → Filter} {operands : List Filter} {filter : Filter}
    (joins : Joins node operands filter) (empty : Filter) :
    filter = Filter.joined node empty operands := by
  cases joins <;> rfl

theorem joins_joined {operands : List Filter} (nonempty : operands ≠ [])
    (node : List Filter → Filter) (empty : Filter) :
    Joins node operands (Filter.joined node empty operands) := by
  rcases operands with _ | ⟨first, _ | ⟨second, rest⟩⟩
  · exact absurd rfl nonempty
  · exact .single
  · exact .several

theorem Joins.leaves_and {operands : List Filter} {filter : Filter}
    (joins : Joins .and operands filter) : filter.leaves = operands.flatMap Filter.leaves := by
  cases joins <;> simp [Filter.leaves]

theorem Joins.leaves_or {operands : List Filter} {filter : Filter}
    (joins : Joins .or operands filter) : filter.leaves = operands.flatMap Filter.leaves := by
  cases joins <;> simp [Filter.leaves]

variable {budget : Nat} {field : Option String} {members : List Filter} {input rest : List Kind}

theorem joins_conjuncts (derived : Derives budget (.conjuncts field members) input rest) :
    Joins .and members (Filter.joined .and .all members) :=
  joins_joined (by cases derived <;> simp) .and .all

theorem joins_disjuncts (derived : Derives budget (.disjuncts field members) input rest) :
    Joins .or members (Filter.joined .or .none members) :=
  joins_joined (by cases derived <;> simp) .or .none

end ScopedFilter.Grammar
