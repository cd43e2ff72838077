import ScopedFilter.Proofs.Acceptance
import ScopedFilter.Proofs.SpelledText
import ScopedFilter.Query.Locality
import ScopedFilter.Query.Reread

/-!
The filters that come from texts. The grammar derives canonical filters only, nested no deeper than
its budget allows, and a text gives every field it names at least one character. Main statement:
`parsed_of_parse`.
-/

namespace ScopedFilter

open Grammar Text

namespace Filter

/-- Conjunctions and disjunctions have two members or more and do not stand where parentheses would
be needed around them. There is no constant `none`. -/
inductive Canonical : Filter → Prop
  | leaf {test} : Canonical (leaf test)
  | not {child} : child.isJoin = false → Canonical child → Canonical (not child)
  | and {members} : 2 ≤ members.length → (∀ member ∈ members, member.isJoin = false) →
      (∀ member ∈ members, Canonical member) → Canonical (and members)
  | or {members} : 2 ≤ members.length → (∀ member ∈ members, member.isOr = false) →
      (∀ member ∈ members, Canonical member) → Canonical (or members)
  | group {child} : Canonical child → Canonical (group child)
  | all : Canonical all

def Named (filter : Filter) : Prop := ∀ test ∈ filter.leaves, test.field? ≠ some ""

theorem named_leaf {test : Leaf} (named : test.field? ≠ some "") : (leaf test).Named := by
  simpa [Named, leaves] using named

theorem named_of_joins_and {members : List Filter} {filter : Filter}
    (joins : Joins and members filter) (named : ∀ member ∈ members, member.Named) :
    filter.Named := by
  rw [Named, joins.leaves_and, List.forall_mem_flatMap]
  exact named

theorem named_of_joins_or {members : List Filter} {filter : Filter}
    (joins : Joins or members filter) (named : ∀ member ∈ members, member.Named) :
    filter.Named := by
  rw [Named, joins.leaves_or, List.forall_mem_flatMap]
  exact named

theorem named_group {child : Filter} (named : child.Named) : (group child).Named := by
  rwa [Named, leaves]

/-- A canonical filter of a form that `excluded` leaves, nested less deep than `budget`. -/
structure Fits (excluded : Filter → Bool) (budget : Nat) (filter : Filter) : Prop where
  form : excluded filter = false
  canonical : Canonical filter
  shallow : filter.nesting < budget

variable {budget : Nat} {members : List Filter} {filter : Filter}

theorem Fits.of_joins_and (joins : Joins and members filter)
    (clauses : ∀ member ∈ members, Fits isJoin budget member) : Fits isOr budget filter := by
  cases joins with
  | single =>
      have only := clauses filter (by simp)
      exact ⟨isOr_eq_false_of_not_isJoin only.form, only.canonical, only.shallow⟩
  | @several first second rest =>
      have positive : 0 < budget := Nat.zero_lt_of_lt (clauses first (by simp)).shallow
      refine ⟨rfl, .and (by simp) (fun member known => (clauses member known).form)
        fun member known => (clauses member known).canonical, ?_⟩
      rw [nesting, deepest_lt_iff positive, List.forall_mem_map]
      intro member known
      rw [isOr_eq_false_of_not_isJoin (clauses member known).form]
      exact (clauses member known).shallow

theorem Fits.of_joins_or (joins : Joins or members filter)
    (conjunctions : ∀ member ∈ members, Fits isOr budget member) :
    Canonical filter ∧ filter.nesting < budget := by
  cases joins with
  | single =>
      have only := conjunctions filter (by simp)
      exact ⟨only.canonical, only.shallow⟩
  | @several first second rest =>
      have positive : 0 < budget := Nat.zero_lt_of_lt (conjunctions first (by simp)).shallow
      refine ⟨.or (by simp) (fun member known => (conjunctions member known).form)
        fun member known => (conjunctions member known).canonical, ?_⟩
      rw [nesting, if_neg (by simp), deepest_lt_iff positive, List.forall_mem_map]
      exact fun member known => (conjunctions member known).shallow

theorem Fits.group (joins : Joins or members filter)
    (conjunctions : ∀ member ∈ members, Fits isOr budget member) :
    Fits isJoin (budget + 1) (group filter) := by
  have ⟨canonical, shallow⟩ := Fits.of_joins_or joins conjunctions
  refine ⟨rfl, .group canonical, ?_⟩
  rw [nesting]
  exact Nat.succ_lt_succ shallow

end Filter

namespace Grammar

open ScopedFilter.Filter

def Part.Sound (budget : Nat) : Part → Prop
  | clause _ filter => Fits isJoin budget filter
  | conjuncts _ members => members ≠ [] ∧ ∀ member ∈ members, Fits isJoin budget member
  | disjuncts _ members => members ≠ [] ∧ ∀ member ∈ members, Fits isOr budget member
  | value _ filter => Fits isJoin (budget + 1) filter

theorem fits_leaf (budget : Nat) (test : Leaf) : Fits isJoin (budget + 1) (leaf test) :=
  ⟨rfl, .leaf, by rw [nesting]; omega⟩

theorem fits_of_range {field : String} {input rest : List Kind} {filter : Filter} (budget : Nat)
    (derived : Range field input filter rest) : Fits isJoin (budget + 1) filter := by
  cases derived
  exact fits_leaf budget _

theorem fits_of_wordValue {field raw : String} {filter : Filter} (budget : Nat)
    (derived : WordValue field raw filter) : Fits isJoin (budget + 1) filter := by
  cases derived with
  | everything => exact ⟨rfl, .all, by rw [nesting]; omega⟩
  | comparison _ => exact fits_leaf budget _
  | term _ _ _ => exact fits_leaf budget _

theorem sound_of_derives {budget : Nat} {part : Part} {input rest : List Kind}
    (derived : Derives budget part input rest) : part.Sound budget := by
  induction derived with
  | negation _ _ inner =>
      refine ⟨rfl, .not inner.form inner.canonical, ?_⟩
      rw [nesting, inner.form]
      exact Nat.succ_lt_succ inner.shallow
  | affirmation _ inner => exact ⟨inner.form, inner.canonical, Nat.lt_succ_of_lt inner.shallow⟩
  | group _ joins inner => exact Fits.group joins inner.2
  | fielded _ _ inner => exact inner
  | word _ _ => exact fits_leaf _ _
  | upTo => exact fits_leaf _ _
  | phrase _ => exact fits_leaf _ _
  | range found => exact fits_of_range _ found
  | wordValue meant => exact fits_of_wordValue _ meant
  | upToValue => exact fits_leaf _ _
  | phraseValue _ => exact fits_leaf _ _
  | groupValue _ joins inner => exact Fits.group joins inner.2
  | rangeValue found => exact fits_of_range _ found
  | lastConjunct _ first => exact ⟨by simp, List.forall_mem_singleton.mpr first⟩
  | joinedConjunct _ _ first later => exact ⟨by simp, List.forall_mem_cons.mpr ⟨first, later.2⟩⟩
  | adjacentConjunct _ _ _ first later =>
      exact ⟨by simp, List.forall_mem_cons.mpr ⟨first, later.2⟩⟩
  | lastDisjunct _ joins first =>
      exact ⟨by simp, List.forall_mem_singleton.mpr (Fits.of_joins_and joins first.2)⟩
  | joinedDisjunct _ joins _ first later =>
      exact ⟨by simp, List.forall_mem_cons.mpr ⟨Fits.of_joins_and joins first.2, later.2⟩⟩

theorem derives_succ {budget : Nat} {part : Part} {input rest : List Kind}
    (derived : Derives budget part input rest) : Derives (budget + 1) part input rest := by
  induction derived with
  | negation sign _ inner => exact .negation sign inner
  | affirmation _ inner => exact .affirmation inner
  | group _ joins inner => exact .group inner joins
  | fielded spells _ inner => exact .fielded spells inner
  | word noColon spells => exact .word noColon spells
  | upTo => exact .upTo
  | phrase spells => exact .phrase spells
  | range found => exact .range found
  | wordValue meant => exact .wordValue meant
  | upToValue => exact .upToValue
  | phraseValue spells => exact .phraseValue spells
  | groupValue _ joins inner => exact .groupValue inner joins
  | rangeValue found => exact .rangeValue found
  | lastConjunct _ first => exact .lastConjunct first
  | joinedConjunct _ _ first later => exact .joinedConjunct first later
  | adjacentConjunct _ starts _ first later => exact .adjacentConjunct first starts later
  | lastDisjunct _ joins first => exact .lastDisjunct first joins
  | joinedDisjunct _ joins _ first later => exact .joinedDisjunct first joins later

theorem derives_mono {fewer more : Nat} (le : fewer ≤ more) {part : Part} {input rest : List Kind}
    (derived : Derives fewer part input rest) : Derives more part input rest := by
  induction le with
  | refl => exact derived
  | step _ ih => exact derives_succ ih

theorem disjuncts_unique {first second : Nat} {field : Option String} {input : List Kind}
    {firsts seconds : List Filter} (left : Derives first (.disjuncts field firsts) input [])
    (right : Derives second (.disjuncts field seconds) input []) : firsts = seconds := by
  have leftRead := Reading.reads_of_derives (derives_mono (Nat.le_max_left first second) left)
  have rightRead := Reading.reads_of_derives (derives_mono (Nat.le_max_right first second) right)
  have same := (leftRead rfl rfl).symm.trans (rightRead rfl rfl)
  cases same
  rfl

def NamesFields (kinds : List Kind) : Prop :=
  ∀ raw rest, .word raw :: .colon :: rest <:+ kinds → unescaped raw ≠ ""

theorem NamesFields.suffix {kinds rest : List Kind} (names : NamesFields kinds)
    (suffix : rest <:+ kinds) : NamesFields rest :=
  fun raw later present => names raw later (present.trans suffix)

theorem NamesFields.tail {kind : Kind} {kinds : List Kind} (names : NamesFields (kind :: kinds)) :
    NamesFields kinds := names.suffix (List.suffix_cons _ _)

def Part.Named : Part → Prop
  | clause field filter => field ≠ some "" → filter.Named
  | conjuncts field members => field ≠ some "" → ∀ member ∈ members, member.Named
  | disjuncts field members => field ≠ some "" → ∀ member ∈ members, member.Named
  | value field filter => field ≠ "" → filter.Named

theorem named_of_range {field : String} {input rest : List Kind} {filter : Filter}
    (derived : Range field input filter rest) (named : field ≠ "") : filter.Named := by
  cases derived
  exact named_leaf (by simpa [Leaf.field?] using named)

theorem named_of_wordValue {field raw : String} {filter : Filter}
    (derived : WordValue field raw filter) (named : field ≠ "") : filter.Named := by
  cases derived with
  | everything => simp [Filter.Named, leaves]
  | comparison compared =>
      generalize raw.toList = characters at compared
      cases compared <;> exact named_leaf (by simpa [Leaf.field?] using named)
  | term _ _ _ => exact named_leaf (by simpa [Leaf.field?] using named)

theorem named_of_derives {budget : Nat} {part : Part} {input rest : List Kind}
    (derived : Derives budget part input rest) (names : NamesFields input) : part.Named := by
  induction derived with
  | negation _ _ inner =>
      intro named
      rw [Filter.Named, leaves]
      exact inner names.tail named
  | affirmation _ inner => exact inner names.tail
  | group _ joins inner =>
      exact fun named => named_group (named_of_joins_or joins (inner names.tail named))
  | fielded spells _ inner =>
      cases spells_iff.mp spells
      exact fun _ => inner names.tail.tail (names _ _ (List.suffix_refl _))
  | word _ _ => exact fun named => named_leaf named
  | upTo => exact fun named => named_leaf named
  | phrase _ => exact fun named => named_leaf named
  | range found => exact fun named => named_of_range found (by simpa using named)
  | wordValue meant => exact named_of_wordValue meant
  | upToValue => exact fun named => named_leaf (by simpa [Leaf.field?] using named)
  | phraseValue _ => exact fun named => named_leaf (by simpa [Leaf.field?] using named)
  | groupValue _ joins inner =>
      exact fun named =>
        named_group (named_of_joins_or joins (inner names.tail (by simpa using named)))
  | rangeValue found => exact named_of_range found
  | lastConjunct _ first => exact fun named => List.forall_mem_singleton.mpr (first names named)
  | joinedConjunct firstDerived _ first later =>
      have after := (names.suffix (local_of_derives firstDerived).suffix).tail
      exact fun named => List.forall_mem_cons.mpr ⟨first names named, later after named⟩
  | adjacentConjunct firstDerived _ _ first later =>
      have after := names.suffix (local_of_derives firstDerived).suffix
      exact fun named => List.forall_mem_cons.mpr ⟨first names named, later after named⟩
  | lastDisjunct _ joins first =>
      exact fun named =>
        List.forall_mem_singleton.mpr (named_of_joins_and joins (first names named))
  | joinedDisjunct firstDerived joins _ first later =>
      have after := (names.suffix (local_of_derives firstDerived).suffix).tail
      exact fun named =>
        List.forall_mem_cons.mpr ⟨named_of_joins_and joins (first names named), later after named⟩

end Grammar

namespace Lexeme

variable {afterColon : Bool} {first : Char} {rest : List Char} {raw : String}

theorem punctuation?_ne_word : Kind.punctuation? first ≠ some (.word raw) := by
  unfold Kind.punctuation?
  split <;> simp

theorem operator?_ne_word : operator? afterColon first rest ≠ some (.word raw) := by
  have sign : Kind.sign? first ≠ some (.word raw) := by
    unfold Kind.sign?
    split <;> simp
  unfold operator?
  split
  · rename_i found
    rw [found] at sign
    split
    · simp
    · exact sign
  · simp

theorem ofWord_eq_word {word : List Char} (found : Kind.ofWord word = .word raw) :
    raw = String.ofList word := by
  unfold Kind.ofWord Kind.keyword? at found
  split at found <;> cases found
  rfl

theorem head_of_word (found : (head afterColon first rest).1 = .word raw) :
    raw = String.ofList (first :: rest.take (wordLength (first = '\\') rest)) := by
  unfold head at found
  split at found
  · split at found <;> cases found
  · split at found
    · rename_i kind operator
      subst found
      rcases Option.or_eq_some_iff.mp operator with mark | ⟨_, sign⟩
      · exact absurd mark punctuation?_ne_word
      · exact absurd sign operator?_ne_word
    · exact ofWord_eq_word found

theorem plain_of_word (first : Char) {rest : List Char} (more : rest ≠ []) :
    plain false (first :: rest.take (wordLength (first = '\\') rest)) ≠ [] := by
  obtain ⟨next, later, rfl⟩ := List.exists_cons_of_ne_nil more
  by_cases backslash : first = '\\'
  · simp [backslash, plain, wordLength]
  · simp [backslash, plain]

theorem namesFields_kinds (afterColon : Bool) (text : List Char) :
    NamesFields (kinds afterColon text) := by
  rw [kinds]
  fun_induction cut afterColon text with
  | case1 =>
      intro raw rest present
      simp at present
  | case2 afterColon text gap first rest present shorter piece ih =>
      intro raw later suffix
      rw [List.map_cons, List.suffix_cons_iff] at suffix
      rcases suffix with whole | inner
      · obtain ⟨word, colon⟩ := List.cons.inj whole
        have more : rest ≠ [] := by
          rintro rfl
          rw [List.drop_nil, cut] at colon
          cases colon
        rw [head_of_word word.symm, unescaped, String.toList_ofList]
        exact mt String.ofList_eq_empty_iff.mp (plain_of_word first more)
      · exact ih raw later inner

end Lexeme

namespace Filter

theorem ofTokens_ok_iff {tokens : List Token} {filter : Filter} :
    Filter.ofTokens tokens = .ok filter ↔
      ∃ members, Derives Reading.maxNesting (.disjuncts Option.none members)
        (tokens.map Token.kind) [] ∧ filter = joined or none members := by
  rw [Filter.ofTokens, Reader.read_ofTokens_iff, Reading.complete_eq_done_iff,
    Reading.run_filter_iff]
  refine exists_congr fun members => and_congr_right fun derived => ?_
  constructor
  · exact fun joins => joins.eq_joined none
  · rintro rfl
    exact joins_disjuncts derived

theorem parse_eq_ok_iff {text : String} {filter : Filter} :
    Filter.parse text = .ok filter ↔
      ∃ members, Derives Reading.maxNesting (.disjuncts Option.none members)
        (Lexeme.kinds false text.toList) [] ∧ filter = joined or none members := by
  rw [Filter.parse, ofTokens_ok_iff, Lexeme.map_kind_ofText]

theorem canonical_of_ofTokens {tokens : List Token} {filter : Filter}
    (read : Filter.ofTokens tokens = .ok filter) : Canonical filter := by
  obtain ⟨members, derived, rfl⟩ := ofTokens_ok_iff.mp read
  exact (Fits.of_joins_or (joins_disjuncts derived) (sound_of_derives derived).2).1

structure Parsed (filter : Filter) : Prop where
  canonical : Canonical filter
  named : filter.Named
  shallow : filter.nesting < Reading.maxNesting

theorem parsed_of_parse {text : String} {filter : Filter}
    (parsed : Filter.parse text = .ok filter) : Parsed filter := by
  obtain ⟨members, derived, rfl⟩ := parse_eq_ok_iff.mp parsed
  have joins := joins_disjuncts derived
  have ⟨canonical, shallow⟩ := Fits.of_joins_or joins (sound_of_derives derived).2
  have named := named_of_derives derived (Lexeme.namesFields_kinds false _) nofun
  exact ⟨canonical, named_of_joins_or joins named, shallow⟩

end Filter

end ScopedFilter
