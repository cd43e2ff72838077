import ScopedFilter.Proofs.Renaming
import ScopedFilter.Query.Locality

/-!
Derivations after a change of words. Words other than fields may be exchanged for words of the same
form: the filter then keeps its shape and the fields of its tests. Main statement:
`derives_reworded`.
-/

namespace ScopedFilter

def Leaf.SameField (left right : Leaf) : Prop := left.field? = right.field?

namespace Grammar

/-- Two words that are both a comparison or both not, and both the star or both not. -/
structure SameForm (left right : String) : Prop where
  star : left = "*" ↔ right = "*"
  comparison : ∀ field,
    (∃ leaf, Comparison field left.toList leaf) ↔ ∃ leaf, Comparison field right.toList leaf

theorem SameForm.refl (raw : String) : SameForm raw raw := ⟨Iff.rfl, fun _ => Iff.rfl⟩

theorem SameForm.symm {left right : String} (same : SameForm left right) : SameForm right left :=
  ⟨same.star.symm, fun field => (same.comparison field).symm⟩

/-- Kinds that differ in words only, of which none stands before a colon. -/
inductive Reworded : List Kind → List Kind → Prop
  | nil : Reworded [] []
  | keep {kind lefts rights} : Reworded lefts rights → Reworded (kind :: lefts) (kind :: rights)
  | word {left right lefts rights} : SameForm left right → lefts.head? ≠ some .colon →
      Reworded lefts rights → Reworded (.word left :: lefts) (.word right :: rights)

inductive Part.Like : Part → Part → Prop
  | clause {field left right} : left.Alike Leaf.SameField right →
      Like (.clause field left) (.clause field right)
  | conjuncts {field lefts rights} :
      List.Forall₂ (Filter.Alike Leaf.SameField) lefts rights →
      Like (.conjuncts field lefts) (.conjuncts field rights)
  | disjuncts {field lefts rights} :
      List.Forall₂ (Filter.Alike Leaf.SameField) lefts rights →
      Like (.disjuncts field lefts) (.disjuncts field rights)
  | value {field left right} : left.Alike Leaf.SameField right →
      Like (.value field left) (.value field right)

namespace Reworded

variable {kind : Kind} {raw : String} {input lefts rights other : List Kind}

theorem refl (kinds : List Kind) : Reworded kinds kinds := by
  induction kinds with
  | nil => exact .nil
  | cons _ _ ih => exact .keep ih

theorem append (front : List Kind) (reworded : Reworded lefts rights) :
    Reworded (front ++ lefts) (front ++ rights) := by
  induction front with
  | nil => exact reworded
  | cons _ _ ih => exact .keep ih

theorem kept (reworded : Reworded (kind :: input) other) (noWord : ∀ raw, kind ≠ .word raw) :
    ∃ later, other = kind :: later ∧ Reworded input later := by
  cases reworded with
  | keep more => exact ⟨_, rfl, more⟩
  | word _ _ _ => exact absurd rfl (noWord _)

theorem worded (reworded : Reworded (.word raw :: input) other) :
    ∃ changed later, other = .word changed :: later ∧ SameForm raw changed ∧
      Reworded input later := by
  cases reworded with
  | keep more => exact ⟨_, _, rfl, .refl raw, more⟩
  | word same _ more => exact ⟨_, _, rfl, same, more⟩

theorem fielded (reworded : Reworded (.word raw :: .colon :: input) other) :
    ∃ later, other = .word raw :: .colon :: later ∧ Reworded input later := by
  cases reworded with
  | keep more =>
      obtain ⟨later, rfl, rest⟩ := more.kept (by simp)
      exact ⟨later, rfl, rest⟩
  | word _ noColon _ => exact absurd rfl noColon

theorem head?_ne_colon (reworded : Reworded lefts rights) (free : lefts.head? ≠ some .colon) :
    rights.head? ≠ some .colon := by
  cases reworded with
  | nil => exact free
  | keep _ => exact free
  | word _ _ _ => simp

theorem starting (reworded : Reworded (kind :: input) other) (starts : StartsClause kind) :
    ∃ first later, other = first :: later ∧ StartsClause first ∧ Reworded input later := by
  cases reworded with
  | keep more => exact ⟨_, _, rfl, starts, more⟩
  | word _ _ more => exact ⟨_, _, rfl, .word, more⟩

end Reworded

variable {input rest other : List Kind}

theorem bound_reworded {text : String} (derived : Bound input text rest)
    (reworded : Reworded input other) :
    ∃ changed left, Bound other changed left ∧ Reworded rest left := by
  cases derived with
  | word _ =>
      obtain ⟨_, left, rfl, _, later⟩ := reworded.worded
      exact ⟨_, left, .word (spells_unescaped _), later⟩
  | phrase spells =>
      obtain ⟨left, rfl, later⟩ := reworded.kept (by simp)
      exact ⟨_, left, .phrase spells, later⟩
  | minus _ =>
      obtain ⟨_, rfl, more⟩ := reworded.kept (by simp)
      obtain ⟨_, left, rfl, _, later⟩ := more.worded
      exact ⟨_, left, .minus (spells_unescaped _), later⟩
  | plus _ =>
      obtain ⟨_, rfl, more⟩ := reworded.kept (by simp)
      obtain ⟨_, left, rfl, _, later⟩ := more.worded
      exact ⟨_, left, .plus (spells_unescaped _), later⟩

theorem range_reworded {name : String} {filter : Filter} (derived : Range name input filter rest)
    (reworded : Reworded input other) :
    ∃ changed left, Range name other changed left ∧ filter.Alike Leaf.SameField changed ∧
      Reworded rest left := by
  cases derived with
  | range opens low high closes =>
      obtain ⟨_, rfl, inside⟩ := reworded.kept (by cases opens <;> simp)
      obtain ⟨_, _, lowBound, afterLow⟩ := bound_reworded low inside
      obtain ⟨_, rfl, upper⟩ := afterLow.kept (by simp)
      obtain ⟨_, _, highBound, afterHigh⟩ := bound_reworded high upper
      obtain ⟨left, rfl, later⟩ := afterHigh.kept (by cases closes <;> simp)
      exact ⟨_, left, .range opens lowBound highBound closes, .leaf rfl, later⟩

theorem field?_of_comparison {field : String} {raw : List Char} {leaf : Leaf}
    (compared : Comparison field raw leaf) : leaf.field? = some field := by
  cases compared <;> rfl

theorem wordValue_reworded {field raw changed : String} {filter : Filter}
    (meant : WordValue field raw filter) (same : SameForm raw changed) :
    ∃ meaning, WordValue field changed meaning ∧ filter.Alike Leaf.SameField meaning := by
  cases meant with
  | everything =>
      rw [same.star.mp rfl]
      exact ⟨_, .everything, .all⟩
  | @comparison _ _ leaf compared =>
      obtain ⟨leaf, again⟩ := (same.comparison field).mp ⟨leaf, compared⟩
      refine ⟨_, .comparison again, .leaf ?_⟩
      exact (field?_of_comparison compared).trans (field?_of_comparison again).symm
  | term someTest plainWord _ =>
      refine ⟨_, .term ?_ ?_ (spells_unescaped changed), .leaf rfl⟩
      · exact fun stars => someTest ⟨stars.1, same.star.mpr stars.2⟩
      · intro leaf compared
        obtain ⟨leaf, compared⟩ := (same.comparison field).mpr ⟨leaf, compared⟩
        exact plainWord leaf compared

theorem Joins.alike {node : List Filter → Filter} {lefts rights : List Filter} {filter : Filter}
    (joins : Joins node lefts filter)
    (node_alike : ∀ {lefts rights}, List.Forall₂ (Filter.Alike Leaf.SameField) lefts rights →
      (node lefts).Alike Leaf.SameField (node rights))
    (alike : List.Forall₂ (Filter.Alike Leaf.SameField) lefts rights) :
    ∃ changed, Joins node rights changed ∧ filter.Alike Leaf.SameField changed := by
  cases joins with
  | single =>
      cases alike with
      | cons same none =>
          cases none
          exact ⟨_, .single, same⟩
  | several =>
      cases alike with
      | cons first rest =>
          cases rest with
          | cons second more => exact ⟨_, .several, node_alike (.cons first (.cons second more))⟩

theorem derives_reworded {budget : Nat} {part : Part} (derived : Derives budget part input rest)
    (reworded : Reworded input other) :
    ∃ changed left, Derives budget changed other left ∧ part.Like changed ∧ Reworded rest left := by
  induction derived generalizing other with
  | negation sign _ ih =>
      obtain ⟨_, rfl, more⟩ := reworded.kept (by cases sign <;> simp)
      obtain ⟨_, left, found, ⟨alike⟩, later⟩ := ih more
      exact ⟨_, left, .negation sign found, .clause (.not alike), later⟩
  | affirmation _ ih =>
      obtain ⟨_, rfl, more⟩ := reworded.kept (by simp)
      obtain ⟨_, left, found, ⟨alike⟩, later⟩ := ih more
      exact ⟨_, left, .affirmation found, .clause alike, later⟩
  | group _ joins ih =>
      obtain ⟨_, rfl, more⟩ := reworded.kept (by simp)
      obtain ⟨_, _, found, _ | _ | ⟨members⟩, closed⟩ := ih more
      obtain ⟨left, rfl, later⟩ := closed.kept (by simp)
      obtain ⟨_, again, alike⟩ := joins.alike .or members
      exact ⟨_, left, .group found again, .clause (.group alike), later⟩
  | fielded spells _ ih =>
      obtain ⟨_, rfl, more⟩ := reworded.fielded
      obtain ⟨_, left, found, _ | _ | _ | ⟨alike⟩, later⟩ := ih more
      exact ⟨_, left, .fielded spells found, .clause alike, later⟩
  | word noColon _ =>
      obtain ⟨_, left, rfl, _, later⟩ := reworded.worded
      have noColonAgain := later.head?_ne_colon noColon
      exact ⟨_, left, .word noColonAgain (spells_unescaped _), .clause (.leaf rfl), later⟩
  | upTo =>
      obtain ⟨left, rfl, later⟩ := reworded.kept (by simp)
      exact ⟨_, left, .upTo, .clause (.leaf rfl), later⟩
  | phrase spells =>
      obtain ⟨left, rfl, later⟩ := reworded.kept (by simp)
      exact ⟨_, left, .phrase spells, .clause (.leaf rfl), later⟩
  | range found =>
      obtain ⟨_, left, derived, alike, later⟩ := range_reworded found reworded
      exact ⟨_, left, .range derived, .clause alike, later⟩
  | wordValue meant =>
      obtain ⟨_, left, rfl, same, later⟩ := reworded.worded
      obtain ⟨_, meaning, alike⟩ := wordValue_reworded meant same
      exact ⟨_, left, .wordValue meaning, .value alike, later⟩
  | upToValue =>
      obtain ⟨left, rfl, later⟩ := reworded.kept (by simp)
      exact ⟨_, left, .upToValue, .value (.leaf rfl), later⟩
  | phraseValue spells =>
      obtain ⟨left, rfl, later⟩ := reworded.kept (by simp)
      exact ⟨_, left, .phraseValue spells, .value (.leaf rfl), later⟩
  | groupValue _ joins ih =>
      obtain ⟨_, rfl, more⟩ := reworded.kept (by simp)
      obtain ⟨_, _, found, _ | _ | ⟨members⟩, closed⟩ := ih more
      obtain ⟨left, rfl, later⟩ := closed.kept (by simp)
      obtain ⟨_, again, alike⟩ := joins.alike .or members
      exact ⟨_, left, .groupValue found again, .value (.group alike), later⟩
  | rangeValue found =>
      obtain ⟨_, left, derived, alike, later⟩ := range_reworded found reworded
      exact ⟨_, left, .rangeValue derived, .value alike, later⟩
  | lastConjunct _ ih =>
      obtain ⟨_, left, found, ⟨alike⟩, later⟩ := ih reworded
      exact ⟨_, left, .lastConjunct found, .conjuncts (.cons alike .nil), later⟩
  | joinedConjunct _ _ ihFirst ihLater =>
      obtain ⟨_, _, first, ⟨alike⟩, between⟩ := ihFirst reworded
      obtain ⟨_, rfl, more⟩ := between.kept (by simp)
      obtain ⟨_, left, found, _ | ⟨members⟩, later⟩ := ihLater more
      exact ⟨_, left, .joinedConjunct first found, .conjuncts (.cons alike members), later⟩
  | adjacentConjunct _ starts _ ihFirst ihLater =>
      obtain ⟨_, _, first, ⟨alike⟩, between⟩ := ihFirst reworded
      obtain ⟨_, left, found, _ | ⟨members⟩, later⟩ := ihLater between
      obtain ⟨_, _, rfl, again, _⟩ := between.starting starts
      exact ⟨_, left, .adjacentConjunct first again found, .conjuncts (.cons alike members), later⟩
  | lastDisjunct _ joins ih =>
      obtain ⟨_, left, found, _ | ⟨members⟩, later⟩ := ih reworded
      obtain ⟨_, again, alike⟩ := joins.alike .and members
      exact ⟨_, left, .lastDisjunct found again, .disjuncts (.cons alike .nil), later⟩
  | joinedDisjunct _ joins _ ihFirst ihLater =>
      obtain ⟨_, _, first, _ | ⟨conjuncts⟩, between⟩ := ihFirst reworded
      obtain ⟨_, rfl, more⟩ := between.kept (by simp)
      obtain ⟨_, left, found, _ | _ | ⟨members⟩, later⟩ := ihLater more
      obtain ⟨_, again, alike⟩ := joins.alike .and conjuncts
      exact ⟨_, left, .joinedDisjunct first again found, .disjuncts (.cons alike members), later⟩

end Grammar

end ScopedFilter
