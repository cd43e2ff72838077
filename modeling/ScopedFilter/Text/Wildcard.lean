import ScopedFilter.Text.Spelling

/-!
Wildcards in words. In the query of the store a star and a question mark stand for other characters
unless a backslash stands before them. A spelled word has no backslash there.
-/

namespace ScopedFilter.Text

def isWildcard (char : Char) : Bool := char = '*' || char = '?'

def marked (escaped : Bool) : List Char → List (Char × Bool)
  | [] => []
  | char :: rest =>
      if !escaped && char = '\\' then marked true rest else (char, escaped) :: marked false rest

/-- Two words have the same wildcards at the same places of their values, escaped in both or in
neither. -/
def SameWildcards (left right : List Char) : Prop :=
  ∀ (place : Nat) (char : Char) (escaped : Bool), isWildcard char = true →
    ((marked false left)[place]? = some (char, escaped) ↔
      (marked false right)[place]? = some (char, escaped))

def WildcardsBare (word : List Char) : Prop :=
  ∀ char, isWildcard char = true → (char, true) ∉ marked false word

variable {escaped : Bool}

theorem map_fst_marked (word : List Char) :
    (marked escaped word).map Prod.fst = plain escaped word := by
  induction word generalizing escaped with
  | nil => rfl
  | cons char rest ih =>
      rw [marked, plain]
      split
      · exact ih
      · rw [List.map_cons, ih]

theorem marked_append_guarded {needsGuard : Char → Bool} (guardsBackslash : needsGuard '\\' = true)
    (value rest : List Char) :
    marked false (value.flatMap (guarded needsGuard) ++ rest) =
      value.map (fun char => (char, needsGuard char)) ++ marked false rest := by
  induction value with
  | nil => rfl
  | cons char value ih =>
      rw [List.flatMap_cons, List.append_assoc, guarded, List.map_cons, List.cons_append]
      split
      · rename_i guards
        simp [marked, ih, guards]
      · rename_i unguarded
        have other : char ≠ '\\' := by
          rintro rfl
          exact unguarded guardsBackslash
        rw [Bool.not_eq_true] at unguarded
        simp [marked, other, ih, unguarded]

theorem breaksWord_of_isWildcard {char : Char} (wild : isWildcard char = true) :
    breaksWord char = false := by
  simp only [isWildcard, Bool.or_eq_true, decide_eq_true_eq] at wild
  rcases wild with rfl | rfl <;> decide

theorem spellWord_of_isWildcard {first : Char} (wild : isWildcard first = true) (rest : List Char) :
    spellWord (first :: rest) = first :: rest.flatMap (guarded breaksWord) := by
  simp only [isWildcard, Bool.or_eq_true, decide_eq_true_eq] at wild
  rcases spellWord_cons first rest with spelled | ⟨_, _, _, spelled⟩
  · exfalso
    rcases wild with rfl | rfl <;> cases spelled
  · exact spelled

theorem marked_spellWord (first : Char) (rest : List Char) :
    ∃ guards, (isWildcard first = true → guards = false) ∧
      marked false (spellWord (first :: rest)) =
        (first, guards) :: rest.map fun char => (char, breaksWord char) := by
  have later := @marked_append_guarded breaksWord (by decide) rest []
  simp only [marked, List.append_nil] at later
  by_cases wild : isWildcard first = true
  · refine ⟨false, fun _ => rfl, ?_⟩
    have other : first ≠ '\\' := by
      rintro rfl
      cases wild
    rw [spellWord_of_isWildcard wild]
    simp [marked, other, later]
  · rcases spellWord_cons first rest with spelled | ⟨harmless, _, _, spelled⟩
    · exact ⟨true, fun present => absurd present wild, by simp [spelled, marked, later]⟩
    · have other : first ≠ '\\' := by
        rintro rfl
        cases harmless
      exact ⟨false, fun _ => rfl, by simp [spelled, marked, other, later]⟩

theorem marked_spellWord_iff {value : List Char} {place : Nat} {char : Char}
    (wild : isWildcard char = true) :
    (marked false (spellWord value))[place]? = some (char, escaped) ↔
      value[place]? = some char ∧ escaped = false := by
  cases value with
  | nil =>
      have quotes : marked false (spellWord []) = [('"', false), ('"', false)] := by decide
      have noQuote : '"' ≠ char := by
        rintro rfl
        cases wild
      rw [quotes]
      rcases place with _ | _ | place <;> simp [noQuote]
  | cons first rest =>
      obtain ⟨guards, bare, whole⟩ := marked_spellWord first rest
      rw [whole]
      cases place with
      | zero =>
          simp only [List.getElem?_cons_zero, Option.some.injEq, Prod.mk.injEq]
          constructor
          · rintro ⟨rfl, rfl⟩
            exact ⟨rfl, bare wild⟩
          · rintro ⟨rfl, rfl⟩
            exact ⟨rfl, bare wild⟩
      | succ place =>
          simp only [List.getElem?_cons_succ, List.getElem?_map, Option.map_eq_some_iff,
            Prod.mk.injEq]
          constructor
          · rintro ⟨found, present, rfl, rfl⟩
            exact ⟨present, breaksWord_of_isWildcard wild⟩
          · rintro ⟨present, rfl⟩
            exact ⟨char, present, rfl, breaksWord_of_isWildcard wild⟩

/-- Spelling the value of a word keeps its wildcards just if it takes no backslash from them. -/
theorem sameWildcards_spellWord_iff (word : List Char) :
    SameWildcards word (spellWord (plain false word)) ↔ WildcardsBare word := by
  constructor
  · intro same char wild present
    obtain ⟨place, found⟩ := List.mem_iff_getElem?.mp present
    have spelled := (same place char true wild).mp found
    exact absurd ((marked_spellWord_iff wild).mp spelled).2 (by decide)
  · intro bare place char escaped wild
    rw [marked_spellWord_iff wild, ← map_fst_marked, List.getElem?_map, Option.map_eq_some_iff]
    have unguarded : (marked false word)[place]? ≠ some (char, true) :=
      fun found => bare char wild (List.mem_of_getElem? found)
    constructor
    · intro found
      cases escaped with
      | true => exact absurd found unguarded
      | false => exact ⟨⟨_, found, rfl⟩, rfl⟩
    · rintro ⟨⟨⟨_, guards⟩, found, rfl⟩, rfl⟩
      cases guards with
      | true => exact absurd found unguarded
      | false => exact found

theorem spellWord_eq_star_iff {value : List Char} : spellWord value = ['*'] ↔ value = ['*'] := by
  constructor
  · intro spelled
    have nonempty : value ≠ [] := by
      rintro rfl
      cases spelled
    rw [← plain_spellWord value nonempty, spelled]
    rfl
  · rintro rfl
    decide

end ScopedFilter.Text
