import ScopedFilter.Query.Grammar

/-!
Where the tests of a filter come from. The kinds of a text are divided among the tests that are read
from them, and each word that a test will be written with has its origin there. Main statement:
`divided_of_derives`.
-/

namespace ScopedFilter

open Text

/-- Where the value of a term or a bound of a range comes from. A comparison omits one bound. -/
inductive Origin where
  | bare (raw : String)
  | quoted (raw : String)
  | omitted
deriving DecidableEq, Repr

namespace Grammar

open ScopedFilter.Filter

inductive BoundFrom : List Kind → String → Origin → Prop
  | word {raw} : BoundFrom [.word raw] (unescaped raw) (.bare raw)
  | phrase {raw} : BoundFrom [.phrase raw] (unescaped raw) (.quoted raw)
  | minus {raw} : BoundFrom [.minus, .word raw] ("-" ++ unescaped raw) (.bare ("-" ++ raw))
  | plus {raw} : BoundFrom [.plus, .word raw] ("+" ++ unescaped raw) (.bare ("+" ++ raw))

/-- The kinds that one test is read from, and the origins of its words. -/
inductive TestFrom : List Kind → Leaf → List Origin → Prop
  | term {field raw} : TestFrom [.word raw] (.term field (unescaped raw)) [.bare raw]
  | upTo {field} : TestFrom [.upTo] (.term field "TO") [.bare "TO"]
  | phrase {field raw} : TestFrom [.phrase raw] (.phrase field (unescaped raw)) []
  | lower {field raw bound inclusive} :
      raw.toList = (if inclusive then ['>', '='] else ['>']) ++ bound →
      TestFrom [.word raw]
        (.range field (String.ofList (plain false bound)) "*" ⟨inclusive, true⟩)
        [.bare (String.ofList bound), .omitted]
  | upper {field raw bound inclusive} :
      raw.toList = (if inclusive then ['<', '='] else ['<']) ++ bound →
      TestFrom [.word raw]
        (.range field "*" (String.ofList (plain false bound)) ⟨true, inclusive⟩)
        [.omitted, .bare (String.ofList bound)]
  | range {field opening closing lows highs low high lowOrigin highOrigin lowInclusive
      highInclusive} :
      Opens opening lowInclusive → BoundFrom lows low lowOrigin →
      BoundFrom highs high highOrigin → Closes closing highInclusive →
      TestFrom (opening :: (lows ++ .upTo :: (highs ++ [closing])))
        (.range field low high ⟨lowInclusive, highInclusive⟩) [lowOrigin, highOrigin]

inductive Connects : Kind → Prop
  | and : Connects .and
  | or : Connects .or
  | plus : Connects .plus
  | leftParen : Connects .leftParen
  | rightParen : Connects .rightParen
  | sign {kind} : Negates kind → Connects kind

/-- The kinds of a text, divided among its tests. All words and phrases in it are taken up by tests,
but for the fields before a colon and the star that matches everything. -/
inductive Divided : List Kind → List (Leaf × List Origin) → Prop
  | nil : Divided [] []
  | connective {kind input uses} : Connects kind → Divided input uses →
      Divided (kind :: input) uses
  | field {raw input uses} : Divided input uses → Divided (.word raw :: .colon :: input) uses
  | everything {raw input uses} : unescaped raw = "*" → Divided input uses →
      Divided (.word raw :: .colon :: .word "*" :: input) uses
  | test {kinds leaf origins input uses} : TestFrom kinds leaf origins → Divided input uses →
      Divided (kinds ++ input) ((leaf, origins) :: uses)

theorem Divided.exists_testFrom {input : List Kind} {uses : List (Leaf × List Origin)}
    (divided : Divided input uses) {use : Leaf × List Origin} (known : use ∈ uses) :
    ∃ kinds, TestFrom kinds use.1 use.2 := by
  induction divided with
  | nil => cases known
  | connective _ _ ih | field _ ih | everything _ _ ih => exact ih known
  | test found _ ih =>
      rcases List.mem_cons.mp known with rfl | later
      · exact ⟨_, found⟩
      · exact ih later

def Yields (leaves : List Leaf) (input rest : List Kind) : Prop :=
  ∃ uses : List (Leaf × List Origin), uses.map Prod.fst = leaves ∧
    ∀ later, Divided rest later → Divided input (uses ++ later)

variable {kind : Kind} {leaf : Leaf} {leaves more : List Leaf} {field : String}
  {input middle rest : List Kind}

namespace Yields

theorem of_no_test (takes : ∀ later, Divided rest later → Divided input later) :
    Yields [] input rest := ⟨[], rfl, takes⟩

theorem connective (connects : Connects kind) : Yields [] (kind :: rest) rest :=
  .of_no_test fun _ => .connective connects

theorem named {raw : String} : Yields [] (.word raw :: .colon :: rest) rest :=
  .of_no_test fun _ => .field

theorem test {kinds : List Kind} {origins : List Origin} (found : TestFrom kinds leaf origins) :
    Yields [leaf] (kinds ++ rest) rest := ⟨[(leaf, origins)], rfl, fun _ => .test found⟩

theorem trans (first : Yields leaves input middle) (second : Yields more middle rest) :
    Yields (leaves ++ more) input rest := by
  obtain ⟨firsts, rfl, take⟩ := first
  obtain ⟨seconds, rfl, takeMore⟩ := second
  refine ⟨firsts ++ seconds, List.map_append, fun later divided => ?_⟩
  rw [List.append_assoc]
  exact take _ (takeMore later divided)

theorem past (connects : Connects kind) (inner : Yields leaves input rest) :
    Yields leaves (kind :: input) rest := (connective connects).trans inner

theorem before (inner : Yields leaves input (kind :: rest)) (connects : Connects kind) :
    Yields leaves input rest := by
  have whole := inner.trans (connective connects)
  rwa [List.append_nil] at whole

end Yields

theorem exists_boundFrom {text : String} (derived : Bound input text rest) :
    ∃ kinds origin, input = kinds ++ rest ∧ BoundFrom kinds text origin := by
  cases derived with
  | word spells =>
      cases spells_iff.mp spells
      exact ⟨_, _, rfl, .word⟩
  | phrase spells =>
      cases spells_iff.mp spells
      exact ⟨_, _, rfl, .phrase⟩
  | minus spells =>
      cases spells_iff.mp spells
      exact ⟨[_, _], _, rfl, .minus⟩
  | plus spells =>
      cases spells_iff.mp spells
      exact ⟨[_, _], _, rfl, .plus⟩

theorem yields_of_range {filter : Filter} (derived : Range field input filter rest) :
    Yields filter.leaves input rest := by
  cases derived with
  | range opens low high closes =>
      obtain ⟨lows, _, rfl, lowFrom⟩ := exists_boundFrom low
      obtain ⟨highs, _, split, highFrom⟩ := exists_boundFrom high
      have found : TestFrom _ (.range field _ _ _) _ := .range opens lowFrom highFrom closes
      have whole : Yields _ _ rest := .test found
      rw [Filter.leaves]
      subst split
      simpa using whole

theorem exists_testFrom_of_comparison {raw : String} (compared : Comparison field raw.toList leaf) :
    ∃ origins, TestFrom [.word raw] leaf origins := by
  generalize split : raw.toList = characters at compared
  cases compared with
  | atLeast _ unescapes =>
      cases unescapes_toList_iff.mp unescapes
      exact ⟨_, @TestFrom.lower _ _ _ true split⟩
  | atMost _ unescapes =>
      cases unescapes_toList_iff.mp unescapes
      exact ⟨_, @TestFrom.upper _ _ _ true split⟩
  | above _ _ unescapes =>
      cases unescapes_toList_iff.mp unescapes
      exact ⟨_, @TestFrom.lower _ _ _ false split⟩
  | below _ _ unescapes =>
      cases unescapes_toList_iff.mp unescapes
      exact ⟨_, @TestFrom.upper _ _ _ false split⟩

theorem yields_of_wordValue {name raw : String} {filter : Filter}
    (meant : WordValue field raw filter) (same : unescaped name = field) :
    Yields filter.leaves (.word name :: .colon :: .word raw :: rest) rest := by
  cases meant with
  | everything =>
      rw [Filter.leaves]
      exact .of_no_test fun _ => .everything same
  | comparison compared =>
      obtain ⟨origins, found⟩ := exists_testFrom_of_comparison compared
      rw [Filter.leaves]
      exact Yields.named.trans (.test found)
  | term _ _ spells =>
      cases spells_iff.mp spells
      rw [Filter.leaves]
      exact Yields.named.trans (.test .term)

def Part.Yields : Part → List Kind → List Kind → Prop
  | clause _ filter, input, rest => Grammar.Yields filter.leaves input rest
  | conjuncts _ members, input, rest | disjuncts _ members, input, rest =>
      Grammar.Yields (members.flatMap Filter.leaves) input rest
  | value field filter, input, rest => ∀ raw, unescaped raw = field →
      Grammar.Yields filter.leaves (.word raw :: .colon :: input) rest

theorem yields_of_derives {budget : Nat} {part : Part} (derived : Derives budget part input rest) :
    part.Yields input rest := by
  induction derived with
  | negation sign _ inner =>
      rw [Part.Yields, Filter.leaves]
      exact inner.past (.sign sign)
  | affirmation _ inner => exact inner.past .plus
  | group _ joins inner =>
      rw [Part.Yields, Filter.leaves, joins.leaves_or]
      exact (inner.before .rightParen).past .leftParen
  | fielded spells _ inner => exact inner _ (spells_iff.mp spells)
  | word _ spells =>
      cases spells_iff.mp spells
      rw [Part.Yields, Filter.leaves]
      exact .test .term
  | upTo =>
      rw [Part.Yields, Filter.leaves]
      exact .test .upTo
  | phrase spells =>
      cases spells_iff.mp spells
      rw [Part.Yields, Filter.leaves]
      exact .test .phrase
  | range found => exact yields_of_range found
  | wordValue meant => exact fun _ same => yields_of_wordValue meant same
  | upToValue =>
      intro raw _
      rw [Filter.leaves]
      exact Yields.named.trans (.test .upTo)
  | phraseValue spells =>
      cases spells_iff.mp spells
      intro raw _
      rw [Filter.leaves]
      exact Yields.named.trans (.test .phrase)
  | groupValue _ joins inner =>
      intro raw _
      rw [Filter.leaves, joins.leaves_or]
      exact Yields.named.trans ((inner.before .rightParen).past .leftParen)
  | rangeValue found => exact fun raw _ => Yields.named.trans (yields_of_range found)
  | lastConjunct _ inner =>
      rw [Part.Yields, List.flatMap_singleton]
      exact inner
  | joinedConjunct _ _ first later => exact (first.before .and).trans later
  | adjacentConjunct _ _ _ first later => exact first.trans later
  | lastDisjunct _ joins inner =>
      rw [Part.Yields, List.flatMap_singleton, joins.leaves_and]
      exact inner
  | joinedDisjunct _ joins _ first later =>
      rw [Part.Yields, List.flatMap_cons, joins.leaves_and]
      exact (first.before .or).trans later

theorem divided_of_derives {budget : Nat} {name : Option String} {members : List Filter}
    (derived : Derives budget (.disjuncts name members) input []) :
    ∃ uses, Divided input uses ∧ uses.map Prod.fst = members.flatMap Filter.leaves := by
  obtain ⟨uses, same, take⟩ := yields_of_derives derived
  have divided := take [] .nil
  rw [List.append_nil] at divided
  exact ⟨uses, divided, same⟩

end Grammar

end ScopedFilter
