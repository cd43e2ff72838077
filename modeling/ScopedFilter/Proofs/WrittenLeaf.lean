import ScopedFilter.Proofs.SpelledText
import ScopedFilter.Query.Derivation
import ScopedFilter.Query.Reread

/-!
Reading back a written test. The words between operands are keywords again, the spelled parts of the
test are words and phrases again, and together they derive the test. Main statement: `readAs_leaf`.
-/

namespace ScopedFilter

open Grammar Text

def spelledKind (value : String) : Kind :=
  if value = "" then .phrase "" else .word (String.ofList (spellWord value.toList))

theorem kinds_spelled {afterColon : Bool} {rest : List Char} (value : String) (edge : AtEdge rest) :
    Lexeme.kinds afterColon (spellWord value.toList ++ rest) =
      spelledKind value :: Lexeme.kinds false rest := by
  unfold spelledKind
  split
  · rename_i empty
    subst empty
    exact kinds_spellPhrase [] rest
  · rename_i nonempty
    exact kinds_spellWord (mt String.toList_eq_nil_iff.mp nonempty) edge

theorem unescaped_spelled {value : String} (nonempty : value ≠ "") :
    unescaped (String.ofList (spellWord value.toList)) = value := by
  rw [unescaped, String.toList_ofList,
    plain_spellWord _ (mt String.toList_eq_nil_iff.mp nonempty), String.ofList_toList]

theorem unescaped_spelledPhrase (value : String) :
    unescaped (String.ofList (value.toList.flatMap (guarded breaksPhrase))) = value := by
  have whole := plain_append_guarded breaksPhrase (by decide) value.toList []
  rw [List.append_nil] at whole
  rw [unescaped, String.toList_ofList, whole, plain, List.append_nil, String.ofList_toList]

theorem spells_spelled {value : String} (nonempty : value ≠ "") :
    Spells (String.ofList (spellWord value.toList)) value :=
  spells_iff.mpr (unescaped_spelled nonempty)

theorem spells_spelledPhrase (value : String) :
    Spells (String.ofList (value.toList.flatMap (guarded breaksPhrase))) value :=
  spells_iff.mpr (unescaped_spelledPhrase value)

theorem bound_spelledKind (value : String) (rest : List Kind) :
    Bound (spelledKind value :: rest) value rest := by
  unfold spelledKind
  split
  · rename_i empty
    subst empty
    exact .phrase (spells_unescaped "")
  · rename_i nonempty
    exact .word (spells_spelled nonempty)

theorem not_comparison_spelled {field value : String} {leaf : Leaf} :
    ¬Comparison field (String.ofList (spellWord value.toList)).toList leaf := by
  rw [String.toList_ofList]
  have noSign := isLeading_head_spellWord value.toList
  intro compared
  generalize spellWord value.toList = raw at noSign compared
  cases compared <;> exact absurd (noSign _ rfl) (by decide)

theorem wordValue_spelled {field value : String} (nonempty : value ≠ "") :
    WordValue field (String.ofList (spellWord value.toList))
      (Leaf.reread (.term (some field) value)) := by
  have value_iff : String.ofList (spellWord value.toList) = "*" ↔ value = "*" := by
    constructor
    · intro same
      rw [← unescaped_spelled nonempty, same]
      rfl
    · rintro rfl
      rfl
  simp only [Leaf.reread, if_neg nonempty, Option.some.injEq]
  split
  · rename_i stars
    obtain ⟨rfl, rfl⟩ := stars
    exact .everything
  · rename_i stars
    exact .term (by rwa [value_iff]) (fun _ => not_comparison_spelled) (spells_spelled nonempty)

theorem kinds_keyword {afterColon : Bool} {first : Char} {later : List Char}
    (harmless : breaksWord first = false) (noSign : isLeading first = false)
    (bare : later.flatMap (guarded breaksWord) = later) (rest : List Char) :
    Lexeme.kinds afterColon (first :: later ++ ' ' :: rest) =
      Kind.ofWord (first :: later) :: Lexeme.kinds false rest := by
  have cut := @kinds_harmless _ afterColon _ harmless noSign (atEdge_blank rest) later
  rw [bare] at cut
  rw [cut, Lexeme.kinds_blank (by decide)]

theorem kinds_not (rest : List Char) :
    Lexeme.kinds false ("NOT ".toList ++ rest) = .not :: Lexeme.kinds false rest :=
  @kinds_keyword false 'N' ['O', 'T'] rfl rfl rfl rest

theorem kinds_upTo (rest : List Char) :
    Lexeme.kinds false (" TO ".toList ++ rest) = .upTo :: Lexeme.kinds false rest :=
  (Lexeme.kinds_blank (by decide)).trans (@kinds_keyword false 'T' ['O'] rfl rfl rfl rest)

theorem kinds_and (rest : List Char) :
    Lexeme.kinds false (" AND ".toList ++ rest) = .and :: Lexeme.kinds false rest :=
  (Lexeme.kinds_blank (by decide)).trans (@kinds_keyword false 'A' ['N', 'D'] rfl rfl rfl rest)

theorem kinds_or (rest : List Char) :
    Lexeme.kinds false (" OR ".toList ++ rest) = .or :: Lexeme.kinds false rest :=
  (Lexeme.kinds_blank (by decide)).trans (@kinds_keyword false 'O' ['R'] rfl rfl rfl rest)

/-- What may stand after a written filter: nothing, or something that ends words and is no colon. -/
structure Ends (rest : List Char) : Prop where
  edge : AtEdge rest
  noColon : (Lexeme.kinds false rest).head? ≠ some .colon

theorem ends_nil : Ends [] := ⟨atEdge_nil, by simp⟩

theorem ends_of_kinds {rest : List Char} {kind : Kind} {later : List Kind} (edge : AtEdge rest)
    (cut : Lexeme.kinds false rest = kind :: later) (noColon : kind ≠ .colon) : Ends rest :=
  ⟨edge, by simpa [cut] using noColon⟩

/-- The text is read as the part, whatever may stand after it. -/
def ReadAs (budget : Nat) (text : List Char) (part : Part) : Prop :=
  ∀ rest, Ends rest →
    Derives budget part (Lexeme.kinds false (text ++ rest)) (Lexeme.kinds false rest)

theorem kinds_writtenField {name : String} (nonempty : name ≠ "") (rest : List Char) :
    Lexeme.kinds false (Leaf.writtenField (some name) ++ rest) =
      .word (String.ofList (spellWord name.toList)) :: .colon :: Lexeme.kinds true rest := by
  rw [Leaf.writtenField, List.append_assoc, List.singleton_append,
    kinds_spelled name (atEdge_cons (by decide)), spelledKind, if_neg nonempty,
    Lexeme.kinds_punctuation (show Kind.punctuation? ':' = some .colon from rfl)]
  rfl

theorem derives_fielded {budget : Nat} {name : String} {filter : Filter} {rest : List Char}
    {later : List Kind} (nonempty : name ≠ "")
    (derived : Derives budget (.value name filter) (Lexeme.kinds true rest) later) :
    Derives (budget + 1) (.clause none filter)
      (Lexeme.kinds false (Leaf.writtenField (some name) ++ rest)) later := by
  rw [kinds_writtenField nonempty]
  exact .fielded (spells_spelled nonempty) derived

theorem readAs_term {budget : Nat} (value : String) :
    ReadAs (budget + 1) (spellWord value.toList)
      (.clause none (Leaf.reread (.term none value))) := by
  intro rest ends
  rw [kinds_spelled value ends.edge, spelledKind, Leaf.reread]
  split
  · exact .phrase (spells_unescaped "")
  · rename_i nonempty
    exact .word ends.noColon (spells_spelled nonempty)

theorem derives_termValue {budget : Nat} {rest : List Char} (name value : String)
    (ends : Ends rest) :
    Derives budget (.value name (Leaf.reread (.term (some name) value)))
      (Lexeme.kinds true (spellWord value.toList ++ rest)) (Lexeme.kinds false rest) := by
  rw [kinds_spelled value ends.edge, spelledKind]
  split
  · rename_i empty
    subst empty
    exact .phraseValue (spells_unescaped "")
  · rename_i nonempty
    exact .wordValue (wordValue_spelled nonempty)

theorem opens_written (inclusive : Bool) :
    ∃ opening, Opens opening inclusive ∧ ∀ afterColon rest,
      Lexeme.kinds afterColon ((if inclusive then '[' else '\x7b') :: rest) =
        opening :: Lexeme.kinds false rest := by
  cases inclusive with
  | false => exact ⟨_, .brace, fun _ _ => Lexeme.kinds_punctuation rfl⟩
  | true => exact ⟨_, .bracket, fun _ _ => Lexeme.kinds_punctuation rfl⟩

theorem closes_written (inclusive : Bool) :
    ∃ closing, Closes closing inclusive ∧ ∀ rest,
      AtEdge ((if inclusive then ']' else '\x7d') :: rest) ∧
      Lexeme.kinds false ((if inclusive then ']' else '\x7d') :: rest) =
        closing :: Lexeme.kinds false rest := by
  cases inclusive with
  | false =>
      exact ⟨_, .brace, fun _ => ⟨atEdge_cons (by decide), Lexeme.kinds_punctuation rfl⟩⟩
  | true =>
      exact ⟨_, .bracket, fun _ => ⟨atEdge_cons (by decide), Lexeme.kinds_punctuation rfl⟩⟩

theorem range_written (name low high : String) (inclusive : Inclusivity) (rest : List Char) :
    Range name
      (Lexeme.kinds true ((if inclusive.low then '[' else '\x7b') :: (spellWord low.toList ++
        (" TO ".toList ++ (spellWord high.toList ++
          ((if inclusive.high then ']' else '\x7d') :: rest))))))
      (.leaf (.range name low high inclusive)) (Lexeme.kinds false rest) := by
  obtain ⟨opening, opens, opened⟩ := opens_written inclusive.low
  obtain ⟨closing, closes, closed⟩ := closes_written inclusive.high
  obtain ⟨edge, closed⟩ := closed rest
  have upToEdge (later : List Char) : AtEdge (" TO ".toList ++ later) := atEdge_blank _
  rw [opened, kinds_spelled low (upToEdge _), kinds_upTo, kinds_spelled high edge, closed]
  exact .range opens (bound_spelledKind low _) (bound_spelledKind high _) closes

theorem readAs_leaf {budget : Nat} {test : Leaf} (named : test.field? ≠ some "") :
    ReadAs (budget + 1) test.written (.clause none test.reread) := by
  intro rest ends
  cases test with
  | term field value =>
      rw [Leaf.written, List.append_assoc]
      rcases field with _ | name
      · exact readAs_term value rest ends
      · exact derives_fielded (by simpa [Leaf.field?] using named)
          (derives_termValue name value ends)
  | phrase field text =>
      rw [Leaf.written, List.append_assoc]
      rcases field with _ | name
      · rw [Leaf.writtenField, List.nil_append, kinds_spellPhrase]
        exact .phrase (spells_spelledPhrase text)
      · refine derives_fielded (by simpa [Leaf.field?] using named) ?_
        rw [kinds_spellPhrase]
        exact .phraseValue (spells_spelledPhrase text)
  | range name low high inclusive =>
      simp only [Leaf.written, List.append_assoc, List.singleton_append]
      exact derives_fielded (by simpa [Leaf.field?] using named)
        (.rangeValue (range_written name low high inclusive rest))

end ScopedFilter
