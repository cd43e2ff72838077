import Mathlib
import ScopedFilter.Proofs.Rereading
import ScopedFilter.Proofs.SeparateTexts

/-!
Filters put together as texts. What stands between two texts joins their disjuncts, or the last
conjunction of the one and the first of the other; everything else stays as it was. Main statement:
`parse_joined_texts`.
-/

namespace ScopedFilter

open ScopedFilter.Filter Text

namespace Grammar

variable {budget : Nat} {field : Option String} {members : List Filter}
  {input other rest : List Kind}

theorem exists_last_disjunct (derived : Derives budget (.disjuncts field members) input rest) :
    ∃ earlier conjuncts lead unread, members = earlier ++ [joined and all conjuncts] ∧
      input = lead ++ unread ∧ Derives budget (.conjuncts field conjuncts) unread rest ∧
      ∀ {others next left}, Derives budget (.disjuncts field others) next left →
        Derives budget (.disjuncts field (earlier ++ others)) (lead ++ next) left := by
  generalize form : Part.disjuncts field members = part at derived
  induction derived generalizing members with
  | @lastDisjunct _ _ _ conjuncts _ _ last joins =>
      cases form
      cases joins.eq_joined all
      exact ⟨[], conjuncts, [], _, rfl, rfl, last, fun found => found⟩
  | @joinedDisjunct _ _ _ _ disjunct _ _ _ first joins _ _ ih =>
      cases form
      obtain ⟨earlier, conjuncts, lead, unread, rfl, rfl, last, exchange⟩ := ih rfl
      obtain ⟨used, rfl, _, again⟩ := local_of_derives first
      refine ⟨disjunct :: earlier, conjuncts, used ++ .or :: lead, unread, rfl, by simp, last, ?_⟩
      intro others next left found
      rw [List.append_assoc]
      exact .joinedDisjunct (again (.or :: (lead ++ next)) (by simp)) joins (exchange found)
  | _ => cases form

theorem exists_first_disjunct (derived : Derives budget (.disjuncts field members) input rest) :
    ∃ conjuncts later stop, members = joined and all conjuncts :: later ∧
      Derives budget (.conjuncts field conjuncts) input stop ∧
      ∀ {others next}, Derives budget (.conjuncts field others) next stop →
        Derives budget (.disjuncts field (joined and all others :: later)) next rest := by
  cases derived with
  | lastDisjunct only joins =>
      cases joins.eq_joined all
      exact ⟨_, [], _, rfl, only, fun found => .lastDisjunct found (joins_conjuncts found)⟩
  | joinedDisjunct first joins later =>
      cases joins.eq_joined all
      exact ⟨_, _, _, rfl, first, fun found => .joinedDisjunct found (joins_conjuncts found) later⟩

/-- The word between two conjunctions, or nothing. -/
inductive Conjoins : List Kind → Prop
  | word : Conjoins [.and]
  | nothing : Conjoins []

theorem conjuncts_conjoin {separator : List Kind} (conjoins : Conjoins separator)
    {firsts seconds : List Filter} (left : Derives budget (.conjuncts none firsts) input [])
    (right : Derives budget (.conjuncts none seconds) other rest) :
    Derives budget (.conjuncts none (firsts ++ seconds)) (input ++ (separator ++ other)) rest := by
  obtain ⟨used, rfl, _, again⟩ := local_of_derives left
  rw [List.append_nil]
  cases conjoins with
  | word => exact conjuncts_append (again (.and :: other) (by simp)) right
  | nothing =>
      obtain ⟨usedRight, rfl, nonempty, _⟩ := local_of_derives right
      obtain ⟨kind, more, rfl⟩ := List.exists_cons_of_ne_nil nonempty
      have starts : StartsClause kind := (starts_of_derives right).resolve_right (by simp)
      have first := again (kind :: (more ++ rest)) (by simpa using starts.ne_colon)
      exact conjuncts_extend first fun last => .adjacentConjunct last starts right

theorem disjuncts_disjoin {firsts seconds : List Filter}
    (left : Derives budget (.disjuncts field firsts) input [])
    (right : Derives budget (.disjuncts field seconds) other rest) :
    Derives budget (.disjuncts field (firsts ++ seconds)) (input ++ ([.or] ++ other)) rest := by
  obtain ⟨used, rfl, _, again⟩ := local_of_derives left
  rw [List.append_nil]
  exact disjuncts_append (again (.or :: other) (by simp)) right

theorem disjuncts_conjoin {firsts seconds : List Filter}
    (left : Derives budget (.disjuncts none firsts) input [])
    (right : Derives budget (.disjuncts none seconds) other rest) :
    ∃ earlier lasts nexts later, firsts = earlier ++ [joined and all lasts] ∧
      seconds = joined and all nexts :: later ∧ (Part.conjuncts none lasts).Sound budget ∧
      (Part.conjuncts none nexts).Sound budget ∧
      ∀ {separator}, Conjoins separator →
        Derives budget (.disjuncts none (earlier ++ joined and all (lasts ++ nexts) :: later))
          (input ++ (separator ++ other)) rest := by
  obtain ⟨earlier, lasts, lead, unread, rfl, rfl, last, exchangeLast⟩ :=
    exists_last_disjunct left
  obtain ⟨nexts, later, stop, rfl, next, exchangeNext⟩ := exists_first_disjunct right
  refine ⟨earlier, lasts, nexts, later, rfl, rfl, sound_of_derives last, sound_of_derives next, ?_⟩
  intro separator conjoins
  rw [List.append_assoc]
  exact exchangeLast (exchangeNext (conjuncts_conjoin conjoins last next))

end Grammar

open Grammar

namespace Filter

theorem conjuncts_joined {budget : Nat} {members : List Filter} (nonempty : members ≠ [])
    (clauses : ∀ member ∈ members, Fits isJoin budget member) :
    (joined and all members).conjuncts = members := by
  rcases members with _ | ⟨first, _ | ⟨second, rest⟩⟩
  · exact absurd rfl nonempty
  · have form := (clauses first (by simp)).form
    cases first <;> first | rfl | cases form
  · rfl

theorem disjuncts_joined {budget : Nat} {members : List Filter} (nonempty : members ≠ [])
    (conjunctions : ∀ member ∈ members, Fits isOr budget member) :
    (joined or none members).disjuncts = members := by
  rcases members with _ | ⟨first, _ | ⟨second, rest⟩⟩
  · exact absurd rfl nonempty
  · have form := (conjunctions first (by simp)).form
    cases first <;> first | rfl | cases form
  · rfl

theorem joined_append {join : List Filter → Filter} {empty : Filter} {firsts seconds : List Filter}
    (some : firsts ≠ []) (more : seconds ≠ []) :
    joined join empty (firsts ++ seconds) = join (firsts ++ seconds) := by
  obtain ⟨first, firsts, rfl⟩ := List.exists_cons_of_ne_nil some
  obtain ⟨second, seconds, rfl⟩ := List.exists_cons_of_ne_nil more
  cases firsts <;> rfl

theorem kinds_separated {left separator right : String} {filter : Filter} {between : List Kind}
    (read : Filter.parse left = .ok filter) (settled : escapes false left.toList = false)
    (blank : separator.toList.head? = some ' ')
    (cut : Lexeme.kinds false (separator.toList ++ right.toList) =
      between ++ Lexeme.kinds false right.toList) :
    Lexeme.kinds false (left ++ separator ++ right).toList =
      Lexeme.kinds false left.toList ++ (between ++ Lexeme.kinds false right.toList) := by
  obtain ⟨_, derived, _⟩ := parse_eq_ok_iff.mp read
  have closed : Kind.unterminated ∉ Lexeme.kinds false left.toList := by
    intro present
    cases unterminated_of_derives derived present
  obtain ⟨rest, spaced⟩ := List.head?_eq_some_iff.mp blank
  rw [String.toList_append, String.toList_append, List.append_assoc, ← cut, spaced]
  exact Lexeme.kinds_append_blank (by decide) _ settled closed

theorem parse_joined_texts {left right : String} {first second : Filter}
    (leftRead : Filter.parse left = .ok first) (rightRead : Filter.parse right = .ok second)
    (settled : escapes false left.toList = false) :
    Filter.parse (left ++ " OR " ++ right) = .ok (or (first.disjuncts ++ second.disjuncts)) ∧
      ∃ earlier last next later, first.disjuncts = earlier ++ [last] ∧
        second.disjuncts = next :: later ∧
        ∀ separator ∈ [" AND ", " "], Filter.parse (left ++ separator ++ right) =
          .ok (joined or none (earlier ++ and (last.conjuncts ++ next.conjuncts) :: later)) := by
  obtain ⟨firsts, leftDerived, rfl⟩ := parse_eq_ok_iff.mp leftRead
  obtain ⟨seconds, rightDerived, rfl⟩ := parse_eq_ok_iff.mp rightRead
  have ⟨someLeft, leftFits⟩ := sound_of_derives leftDerived
  have ⟨someRight, rightFits⟩ := sound_of_derives rightDerived
  rw [disjuncts_joined someLeft leftFits, disjuncts_joined someRight rightFits]
  constructor
  · rw [parse_eq_ok_iff, @kinds_separated _ _ _ _ [.or] leftRead settled rfl (kinds_or _)]
    exact ⟨_, disjuncts_disjoin leftDerived rightDerived, (joined_append someLeft someRight).symm⟩
  · obtain ⟨earlier, lasts, nexts, later, rfl, rfl, ⟨someLasts, lastsFit⟩, ⟨someNexts, nextsFit⟩,
      conjoined⟩ := disjuncts_conjoin leftDerived rightDerived
    refine ⟨earlier, _, _, later, rfl, rfl, ?_⟩
    rw [conjuncts_joined someLasts lastsFit, conjuncts_joined someNexts nextsFit,
      ← @joined_append and all _ _ someLasts someNexts]
    intro separator known
    rw [parse_eq_ok_iff]
    simp only [List.mem_cons, List.not_mem_nil, or_false] at known
    rcases known with rfl | rfl
    · rw [@kinds_separated _ _ _ _ [.and] leftRead settled rfl (kinds_and _)]
      exact ⟨_, conjoined .word, rfl⟩
    · rw [@kinds_separated _ _ _ _ [] leftRead settled rfl (Lexeme.kinds_blank rfl)]
      exact ⟨_, conjoined .nothing, rfl⟩

theorem parse_joined_texts_escaped :
    let left := "a OR b -c\\\\"
    let right := "\"d e\" f OR g"
    let word (raw : String) := leaf (.term Option.none raw)
    let first := and [word "b", not (word "c\\")]
    let second := and [leaf (.phrase Option.none "d e"), word "f"]
    let both := and [word "b", not (word "c\\"), leaf (.phrase Option.none "d e"), word "f"]
    Filter.parse left = .ok (or [word "a", first]) ∧
      Filter.parse right = .ok (or [second, word "g"]) ∧ escapes false left.toList = false ∧
      Filter.parse (left ++ " OR " ++ right) = .ok (or [word "a", first, second, word "g"]) ∧
      Filter.parse (left ++ " AND " ++ right) = .ok (or [word "a", both, word "g"]) ∧
      Filter.parse (left ++ " " ++ right) = .ok (or [word "a", both, word "g"]) := by
  intro left right word first second both
  have leftRead : Filter.parse left = .ok (or [word "a", first]) := by cbv
  have rightRead : Filter.parse right = .ok (or [second, word "g"]) := by cbv
  have settled : escapes false left.toList = false := by decide
  obtain ⟨disjoined, earlier, last, next, later, leftSplit, rightSplit, conjoined⟩ :=
    parse_joined_texts leftRead rightRead settled
  obtain ⟨rfl, only⟩ :=
    List.append_inj' (show [word "a"] ++ [first] = earlier ++ [last] from leftSplit) rfl
  cases only
  cases rightSplit
  exact ⟨leftRead, rightRead, settled, disjoined, conjoined " AND " (by simp),
    conjoined " " (by simp)⟩

end Filter

end ScopedFilter
