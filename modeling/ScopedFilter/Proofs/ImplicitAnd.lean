import Mathlib
import ScopedFilter.Proofs.ParsedFilter
import ScopedFilter.Query.Neighbours

/-!
Conjunctions with and without the word between. The word may be left out in front of everything
that starts a clause by itself. It may not be left out in front of a bracket: a range on an
inherited field starts there, and nothing else says that a clause follows. Main statement:
`ofTokens_thinned_iff`.
-/

namespace ScopedFilter

namespace Grammar

/-- `fewer` is `input` without some of its `and`s; `may` is asked about what lies after each. -/
inductive Thinned (may : List Kind → Prop) : List Kind → List Kind → Prop
  | nil : Thinned may [] []
  | keep {kind input fewer} : Thinned may input fewer → Thinned may (kind :: input) (kind :: fewer)
  | drop {input fewer} : may input → Thinned may input fewer → Thinned may (.and :: input) fewer

inductive StartsAhead : List Kind → Prop
  | clause {first rest} : StartsClause first → StartsAhead (first :: rest)

/-- A bracket comes next that opens a range. -/
inductive OpensAhead : List Kind → Prop
  | range {opening inclusive rest} : Opens opening inclusive → OpensAhead (opening :: rest)

theorem StartsClause.ne_and {kind : Kind} (starts : StartsClause kind) : kind ≠ .and := by
  rintro rfl
  cases starts

theorem Opens.ne_and {kind : Kind} {inclusive : Bool} (opens : Opens kind inclusive) :
    kind ≠ .and := by
  rintro rfl
  cases opens

theorem StartsAhead.not_opensAhead {ahead : List Kind} (starts : StartsAhead ahead) :
    ¬OpensAhead ahead := by
  rintro ⟨opens⟩
  cases starts with
  | clause starts => cases opens <;> cases starts

section Thinning

variable {may : List Kind → Prop} {kind : Kind} {input middle rest fewer : List Kind}

theorem Thinned.refl (input : List Kind) : Thinned may input input := by
  induction input with
  | nil => exact .nil
  | cons _ _ ih => exact .keep ih

theorem Thinned.imp {might : List Kind → Prop} (thinned : Thinned may input fewer)
    (weaker : ∀ ahead, may ahead → might ahead) : Thinned might input fewer := by
  induction thinned with
  | nil => exact .nil
  | keep _ ih => exact .keep ih
  | drop allowed _ ih => exact .drop (weaker _ allowed) ih

theorem Thinned.kept (thinned : Thinned may (kind :: input) fewer) (other : kind ≠ .and) :
    ∃ later, fewer = kind :: later ∧ Thinned may input later := by
  cases thinned with
  | keep more => exact ⟨_, rfl, more⟩
  | drop _ _ => exact absurd rfl other

theorem Thinned.joins (thinned : Thinned StartsAhead (.and :: middle) fewer) :
    (∃ later, fewer = .and :: later ∧ Thinned StartsAhead middle later) ∨
      ∃ first later, fewer = first :: later ∧ StartsClause first ∧
        Thinned StartsAhead middle fewer := by
  cases thinned with
  | keep more => exact .inl ⟨_, rfl, more⟩
  | drop starts more =>
      cases starts with
      | clause starts =>
          obtain ⟨later, rfl, _⟩ := more.kept starts.ne_and
          exact .inr ⟨_, later, rfl, starts, more⟩

theorem Thinned.head?_ne_colon (thinned : Thinned StartsAhead rest fewer)
    (free : rest.head? ≠ some .colon) : fewer.head? ≠ some .colon := by
  cases rest with
  | nil =>
      cases thinned
      exact free
  | cons kind rest =>
      by_cases conjoins : kind = .and
      · subst conjoins
        obtain ⟨_, rfl, _⟩ | ⟨_, _, rfl, starts, _⟩ := thinned.joins
        · exact free
        · simpa using starts.ne_colon
      · obtain ⟨_, rfl, _⟩ := thinned.kept conjoins
        exact free

theorem bound_thinned {text : String} (derived : Bound input text rest)
    (thinned : Thinned may input fewer) :
    ∃ left, Bound fewer text left ∧ Thinned may rest left := by
  cases derived with
  | word spells =>
      obtain ⟨left, rfl, later⟩ := thinned.kept (by simp)
      exact ⟨left, .word spells, later⟩
  | phrase spells =>
      obtain ⟨left, rfl, later⟩ := thinned.kept (by simp)
      exact ⟨left, .phrase spells, later⟩
  | minus spells =>
      obtain ⟨_, rfl, more⟩ := thinned.kept (by simp)
      obtain ⟨left, rfl, later⟩ := more.kept (by simp)
      exact ⟨left, .minus spells, later⟩
  | plus spells =>
      obtain ⟨_, rfl, more⟩ := thinned.kept (by simp)
      obtain ⟨left, rfl, later⟩ := more.kept (by simp)
      exact ⟨left, .plus spells, later⟩

theorem range_thinned {name : String} {filter : Filter} (derived : Range name input filter rest)
    (thinned : Thinned may input fewer) :
    ∃ left, Range name fewer filter left ∧ Thinned may rest left := by
  cases derived with
  | range opens low high closes =>
      obtain ⟨_, rfl, inside⟩ := thinned.kept opens.ne_and
      obtain ⟨_, lowBound, afterLow⟩ := bound_thinned low inside
      obtain ⟨_, rfl, upper⟩ := afterLow.kept (by simp)
      obtain ⟨_, highBound, afterHigh⟩ := bound_thinned high upper
      obtain ⟨left, rfl, later⟩ := afterHigh.kept (by cases closes <;> simp)
      exact ⟨left, .range opens lowBound highBound closes, later⟩

theorem derives_thinned {budget : Nat} {part : Part} (derived : Derives budget part input rest)
    (thinned : Thinned StartsAhead input fewer) :
    ∃ left, Derives budget part fewer left ∧ Thinned StartsAhead rest left := by
  induction derived generalizing fewer with
  | negation sign _ ih =>
      obtain ⟨_, rfl, more⟩ := thinned.kept sign.startsClause.ne_and
      obtain ⟨left, found, later⟩ := ih more
      exact ⟨left, .negation sign found, later⟩
  | affirmation _ ih =>
      obtain ⟨_, rfl, more⟩ := thinned.kept (by simp)
      obtain ⟨left, found, later⟩ := ih more
      exact ⟨left, .affirmation found, later⟩
  | group _ joins ih =>
      obtain ⟨_, rfl, more⟩ := thinned.kept (by simp)
      obtain ⟨_, found, closed⟩ := ih more
      obtain ⟨left, rfl, later⟩ := closed.kept (by simp)
      exact ⟨left, .group found joins, later⟩
  | fielded spells _ ih =>
      obtain ⟨_, rfl, more⟩ := thinned.kept (by simp)
      obtain ⟨_, rfl, afterColon⟩ := more.kept (by simp)
      obtain ⟨left, found, later⟩ := ih afterColon
      exact ⟨left, .fielded spells found, later⟩
  | word noColon spells =>
      obtain ⟨left, rfl, later⟩ := thinned.kept (by simp)
      exact ⟨left, .word (later.head?_ne_colon noColon) spells, later⟩
  | upTo =>
      obtain ⟨left, rfl, later⟩ := thinned.kept (by simp)
      exact ⟨left, .upTo, later⟩
  | phrase spells =>
      obtain ⟨left, rfl, later⟩ := thinned.kept (by simp)
      exact ⟨left, .phrase spells, later⟩
  | range found =>
      obtain ⟨left, derived, later⟩ := range_thinned found thinned
      exact ⟨left, .range derived, later⟩
  | wordValue meant =>
      obtain ⟨left, rfl, later⟩ := thinned.kept (by simp)
      exact ⟨left, .wordValue meant, later⟩
  | upToValue =>
      obtain ⟨left, rfl, later⟩ := thinned.kept (by simp)
      exact ⟨left, .upToValue, later⟩
  | phraseValue spells =>
      obtain ⟨left, rfl, later⟩ := thinned.kept (by simp)
      exact ⟨left, .phraseValue spells, later⟩
  | groupValue _ joins ih =>
      obtain ⟨_, rfl, more⟩ := thinned.kept (by simp)
      obtain ⟨_, found, closed⟩ := ih more
      obtain ⟨left, rfl, later⟩ := closed.kept (by simp)
      exact ⟨left, .groupValue found joins, later⟩
  | rangeValue found =>
      obtain ⟨left, derived, later⟩ := range_thinned found thinned
      exact ⟨left, .rangeValue derived, later⟩
  | lastConjunct _ ih =>
      obtain ⟨left, found, later⟩ := ih thinned
      exact ⟨left, .lastConjunct found, later⟩
  | joinedConjunct _ _ first more =>
      obtain ⟨_, found, between⟩ := first thinned
      obtain ⟨_, rfl, after⟩ | ⟨_, _, rfl, starts, after⟩ := between.joins
      · obtain ⟨left, others, later⟩ := more after
        exact ⟨left, .joinedConjunct found others, later⟩
      · obtain ⟨left, others, later⟩ := more after
        exact ⟨left, .adjacentConjunct found starts others, later⟩
  | adjacentConjunct _ starts _ first more =>
      obtain ⟨_, found, between⟩ := first thinned
      obtain ⟨left, others, later⟩ := more between
      obtain ⟨_, rfl, _⟩ := between.kept starts.ne_and
      exact ⟨left, .adjacentConjunct found starts others, later⟩
  | lastDisjunct _ joins ih =>
      obtain ⟨left, found, later⟩ := ih thinned
      exact ⟨left, .lastDisjunct found joins, later⟩
  | joinedDisjunct _ joins _ first more =>
      obtain ⟨_, found, between⟩ := first thinned
      obtain ⟨_, rfl, after⟩ := between.kept (by simp)
      obtain ⟨left, others, later⟩ := more after
      exact ⟨left, .joinedDisjunct found joins others, later⟩

end Thinning

section Brackets

variable {kind last stop : Kind} {input fewer : List Kind}

theorem Ends.not_introduces (ends : Ends kind) : ¬Introduces kind := by
  intro introduces
  cases ends <;> cases introduces

theorem Follows.ends_of_and (follows : Follows kind .and) : Ends kind := by
  cases follows with
  | clause starts => cases starts
  | range _ opens => cases opens
  | continued ends _ => exact ends

theorem Follows.introduces_of_opens {opening : Kind} {inclusive : Bool}
    (follows : Follows kind opening) (opens : Opens opening inclusive) : Introduces kind := by
  cases follows with
  | clause starts => cases opens <;> cases starts
  | range introduces _ => exact introduces
  | continued _ continues => cases opens <;> cases continues

theorem Follows.startsClause_of_and {next : Kind} {rest : List Kind} (follows : Follows .and next)
    (free : ¬OpensAhead (next :: rest)) : StartsClause next := by
  cases follows with
  | clause starts => exact starts
  | range _ opens => exact absurd (.range opens) free
  | continued ends _ => cases ends

theorem Thinned.starting (thinned : Thinned (fun ahead => ¬OpensAhead ahead) input fewer)
    (path : Path kind input last []) (ends : Ends last) : Thinned StartsAhead input fewer := by
  induction thinned generalizing kind with
  | nil => exact .nil
  | keep _ ih =>
      cases path with
      | step _ later => exact .keep (ih later)
  | drop free _ ih =>
      cases path with
      | step _ later =>
          refine .drop ?_ (ih later)
          cases later with
          | done => cases ends
          | step follows _ => exact .clause (follows.startsClause_of_and free)

theorem Thinned.unopened {may : List Kind → Prop} (thinned : Thinned may input fewer)
    (path : Path kind input last []) (short : Path kind fewer stop []) :
    Thinned (fun ahead => ¬OpensAhead ahead) input fewer := by
  induction thinned generalizing kind last with
  | nil => exact .nil
  | keep _ ih =>
      cases path with
      | step _ later =>
          cases short with
          | step _ shortLater => exact .keep (ih later shortLater)
  | @drop input fewer _ more ih =>
      cases path with
      | step conjoins later =>
          have free : ¬OpensAhead input := by
            rintro ⟨opens⟩
            obtain ⟨_, rfl, _⟩ := more.kept opens.ne_and
            cases short with
            | step follows _ =>
                exact conjoins.ends_of_and.not_introduces (follows.introduces_of_opens opens)
          refine .drop free ?_
          cases later with
          | done => exact ih .done short
          | step follows later =>
              exact ih (.step (.clause (follows.startsClause_of_and free)) later) short

theorem path_of_derives {budget : Nat} {members : List Filter} {input : List Kind}
    (derived : Derives budget (.disjuncts none members) input []) :
    ∃ last, Ends last ∧ Path .leftParen input last [] :=
  reaches_of_derives derived (.inl .leftParen)

end Brackets

end Grammar

namespace Filter

open Grammar

/-- The word between two clauses may be left out anywhere but in front of a bracket. There the
filter could no longer be read; it is never read as another one. -/
theorem ofTokens_thinned_iff {tokens fewer : List Token} {result : Filter}
    (read : Filter.ofTokens tokens = .ok result)
    (thinned : Thinned (fun _ => True) (tokens.map Token.kind) (fewer.map Token.kind)) :
    (Filter.ofTokens fewer = .ok result ↔
        Thinned (fun ahead => ¬OpensAhead ahead) (tokens.map Token.kind) (fewer.map Token.kind)) ∧
      ∀ other, Filter.ofTokens fewer = .ok other → other = result := by
  obtain ⟨members, derived, rfl⟩ := ofTokens_ok_iff.mp read
  obtain ⟨last, ends, path⟩ := path_of_derives derived
  have kept (unopened : Thinned (fun ahead => ¬OpensAhead ahead) (tokens.map Token.kind)
      (fewer.map Token.kind)) : Filter.ofTokens fewer = .ok (joined or none members) := by
    obtain ⟨left, found, rest⟩ := derives_thinned derived (unopened.starting path ends)
    cases rest
    exact ofTokens_ok_iff.mpr ⟨members, found, rfl⟩
  have unopened {other : Filter} (again : Filter.ofTokens fewer = .ok other) :
      Thinned (fun ahead => ¬OpensAhead ahead) (tokens.map Token.kind)
        (fewer.map Token.kind) := by
    obtain ⟨_, short, _⟩ := ofTokens_ok_iff.mp again
    obtain ⟨_, _, shortPath⟩ := path_of_derives short
    exact thinned.unopened path shortPath
  refine ⟨⟨unopened, kept⟩, fun other again => ?_⟩
  have same := again.symm.trans (kept (unopened again))
  exact Except.ok.inj same

theorem ofTokens_thinned_iff_signs :
    let text := "f:(a AND [1 TO 2] AND -[3 TO 4]) AND NOT b AND \"c\""
    let shorter := "f:(a AND [1 TO 2] -[3 TO 4]) NOT b \"c\""
    let range (low high : String) := leaf (.range "f" low high ⟨true, true⟩)
    let inside := and [leaf (.term (some "f") "a"), range "1" "2", not (range "3" "4")]
    let result := and [group inside, not (leaf (.term Option.none "b")),
      leaf (.phrase Option.none "c")]
    Filter.ofTokens (Token.ofText text) = .ok result ∧
      Thinned (fun _ => True) ((Token.ofText text).map Token.kind)
        ((Token.ofText shorter).map Token.kind) ∧
      Filter.ofTokens (Token.ofText shorter) = .ok result := by
  intro text shorter range inside result
  have read : Filter.parse text = .ok result := by cbv
  have kinds : (Token.ofText text).map Token.kind = [.word "f", .colon, .leftParen, .word "a", .and,
      .leftBracket, .word "1", .upTo, .word "2", .rightBracket, .and, .minus, .leftBracket,
      .word "3", .upTo, .word "4", .rightBracket, .rightParen, .and, .not, .word "b", .and,
      .phrase "c"] := by cbv
  have remaining : (Token.ofText shorter).map Token.kind = [.word "f", .colon, .leftParen,
      .word "a", .and, .leftBracket, .word "1", .upTo, .word "2", .rightBracket, .minus,
      .leftBracket, .word "3", .upTo, .word "4", .rightBracket, .rightParen, .not, .word "b",
      .phrase "c"] := by cbv
  have starting : Thinned StartsAhead ((Token.ofText text).map Token.kind)
      ((Token.ofText shorter).map Token.kind) := by
    rw [kinds, remaining]
    repeat first
      | exact .nil
      | apply Thinned.keep
      | refine .drop (.clause (by constructor)) ?_
  have thinned := starting.imp fun _ _ => trivial
  have unopened := starting.imp fun _ starts => starts.not_opensAhead
  exact ⟨read, thinned, (ofTokens_thinned_iff read thinned).1.mpr unopened⟩

theorem thinned_range_unreadable :
    let text := "f:(a AND [1 TO 2])"
    let fewer := (Token.ofText text).filter (·.kind ≠ .and)
    (∃ result, Filter.ofTokens (Token.ofText text) = .ok result) ∧
      Thinned (fun _ => True) ((Token.ofText text).map Token.kind) (fewer.map Token.kind) ∧
      ∀ other, Filter.ofTokens fewer ≠ .ok other := by
  intro text fewer
  have kinds : (Token.ofText text).map Token.kind = [.word "f", .colon, .leftParen, .word "a",
      .and, .leftBracket, .word "1", .upTo, .word "2", .rightBracket, .rightParen] := by cbv
  have remaining : ((Token.ofText text).filter (·.kind ≠ .and)).map Token.kind = [.word "f", .colon,
      .leftParen, .word "a", .leftBracket, .word "1", .upTo, .word "2", .rightBracket,
      .rightParen] := by cbv
  have stuck : Filter.ofTokens ((Token.ofText text).filter (·.kind ≠ .and)) =
      .error ⟨9, [.rightParen], some .leftBracket⟩ := by cbv
  have read : Filter.parse text = .ok (group (and [leaf (.term (some "f") "a"),
    leaf (.range "f" "1" "2" ⟨true, true⟩)])) := by cbv
  refine ⟨⟨_, read⟩, ?_, ?_⟩
  · rw [kinds, remaining]
    exact .keep (.keep (.keep (.keep (.drop trivial (.refl _)))))
  · rw [stuck]
    simp

end Filter

end ScopedFilter
