import ScopedFilter.Query.Derivation

/-!
What a reader accepts. Main statement: `ofTokens_eq_ok_iff`, a reader of all the tokens yields a
filter just if the grammar derives it from their kinds with nothing left over.
-/

namespace ScopedFilter

open Grammar ScopedFilter.Filter

namespace Reading

theorem run_filter_iff {input : List Kind} {result : Filter} :
    filter.run input = .done result [] ↔
      ∃ members, Derives maxNesting (.disjuncts Option.none members) input [] ∧
        Joins .or members result := by
  constructor
  · intro read
    obtain ⟨members, found, rfl⟩ := Step.run_map_eq_done.mp read
    have derived := disjuncts_of_run derives_of_clause found
    exact ⟨members, derived, joins_disjuncts derived⟩
  · rintro ⟨members, derived, joins⟩
    have read := reads_of_derives derived rfl rfl
    exact Step.run_map_eq_done.mpr ⟨members, read, (joins.eq_joined .none).symm⟩

theorem complete_eq_done_iff {input : List Kind} {result : Filter} :
    (∃ rest, complete input = .done result rest) ↔ filter.run input = .done result [] := by
  unfold complete
  constructor
  · rintro ⟨rest, read⟩
    split at read
    · cases read
    · rename_i ended
      cases rest with
      | nil => exact read
      | cons kind rest => exact absurd read (ended result kind rest)
  · intro read
    exact ⟨[], by rw [read]⟩

end Reading

theorem Reader.read_ofTokens_iff {tokens : List Token} {result : Filter} :
    (Reader.ofTokens tokens).read.1 = .ok result ↔
      ∃ rest, Reading.complete (tokens.map Token.kind) = .done result rest := by
  simp only [Reader.read, Reader.ofTokens]
  cases Reading.complete (tokens.map Token.kind) with
  | done found rest => simp
  | stuck expected rest => simp

/-- No clause lies inside more than 127 others. -/
theorem ofTokens_eq_ok_iff (tokens : List Token) (result : Filter) :
    Filter.ofTokens tokens = .ok result ↔
      ∃ members, Derives 128 (.disjuncts Option.none members) (tokens.map Token.kind) [] ∧
        Joins .or members result := by
  rw [Filter.ofTokens, Reader.read_ofTokens_iff, Reading.complete_eq_done_iff]
  exact Reading.run_filter_iff

theorem ofTokens_eq_ok_iff_nested :
    let kinds : List Kind := [.word "a", .word "*", .colon, .word "*", .or, .minus, .leftParen,
      .word "s\\:t", .colon, .word ">=5\\*", .or, .phrase "b\\\"c", .rightParen, .word "x", .colon,
      .leftParen, .word ">7", .plus, .leftBracket, .minus, .word "1", .upTo, .phrase "2",
      .rightBrace, .rightParen]
    let word := leaf (.term Option.none "a")
    let negated := not (group (or [leaf (.range "s:t" "5*" "*" ⟨true, true⟩),
      leaf (.phrase Option.none "b\"c")]))
    let valued := group (and [leaf (.term (some "x") ">7"),
      leaf (.range "x" "-1" "2" ⟨true, false⟩)])
    let result := or [and [word, all], and [negated, valued]]
    (∃ members, Derives 128 (.disjuncts Option.none members) kinds [] ∧ Joins or members result) ∧
      Filter.ofTokens (kinds.map fun kind => ⟨kind, 0, 0⟩) = .ok result := by
  intro kinds word negated valued result
  have spelled {raw : String} : Spells raw (Text.unescaped raw) := spells_unescaped raw
  have first : Derives 128 (.conjuncts Option.none [word, all]) kinds (kinds.drop 4) :=
    .adjacentConjunct (.word (by simp) spelled) .word
      (.lastConjunct (@Derives.fielded _ _ _ "*" _ _ _ spelled (.wordValue .everything)))
  have compared : Comparison "s:t" ">=5\\*".toList (.range "s:t" "5*" "*" ⟨true, true⟩) :=
    .atLeast (List.cons_ne_nil _ _) (.bare (by decide) (.guarded .nothing))
  have atLeast : Derives 126 (.clause Option.none (leaf (.range "s:t" "5*" "*" ⟨true, true⟩)))
      (kinds.drop 7) (kinds.drop 10) :=
    @Derives.fielded _ _ _ "s:t" _ _ _ spelled (.wordValue (.comparison compared))
  have negation : Derives 128 (.clause Option.none negated) (kinds.drop 5) (kinds.drop 13) :=
    .negation .minus (.group (.joinedDisjunct (.lastConjunct atLeast) .single
      (.lastDisjunct (.lastConjunct (.phrase spelled)) .single)) .several)
  have range : Range "x" (kinds.drop 18) (leaf (.range "x" "-1" "2" ⟨true, false⟩))
      (kinds.drop 24) :=
    .range .bracket (@Bound.minus _ "1" _ spelled) (.phrase spelled) .brace
  have inside : Derives 127 (.conjuncts (some "x") [leaf (.term (some "x") ">7"),
      leaf (.range "x" "-1" "2" ⟨true, false⟩)]) (kinds.drop 16) (kinds.drop 24) :=
    .adjacentConjunct (.word (by simp) spelled) .plus (.lastConjunct (.affirmation (.range range)))
  have fielded : Derives 128 (.clause Option.none valued) (kinds.drop 13) [] :=
    @Derives.fielded _ _ _ "x" _ _ _ spelled
      (.groupValue (.lastDisjunct inside .several) .single)
  have second : Derives 128 (.conjuncts Option.none [negated, valued]) (kinds.drop 5) [] :=
    .adjacentConjunct negation .word (.lastConjunct fielded)
  have derived : ∃ members, Derives 128 (.disjuncts Option.none members) kinds [] ∧
      Joins or members result :=
    ⟨_, .joinedDisjunct first .several (.lastDisjunct second .several), .several⟩
  exact ⟨derived, (ofTokens_eq_ok_iff _ _).mpr derived⟩

end ScopedFilter
