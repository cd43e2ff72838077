import ScopedFilter.Query.Reading

/-!
Cutting a text that was spelled. A spelled word or phrase is cut off as one piece, whatever follows
it that ends words, and the pieces after it are those of the text that follows. Main statements:
`cutOff_spellWord` and `cutOff_spellPhrase`.
-/

namespace ScopedFilter

open Text

namespace Lexeme

def kinds (afterColon : Bool) (text : List Char) : List Kind :=
  (cut afterColon text).map Lexeme.kind

theorem map_kind_placed (start : Nat) (lexemes : List Lexeme) :
    (placed start lexemes).map Token.kind = lexemes.map Lexeme.kind := by
  induction lexemes generalizing start with
  | nil => rfl
  | cons lexeme rest ih => simp [placed, ih]

theorem map_kind_ofText (text : String) :
    (Token.ofText text).map Token.kind = kinds false text.toList :=
  map_kind_placed 0 _

variable {afterColon : Bool} {first : Char} {rest tail : List Char}

theorem cut_of_ended {text : List Char} (ended : text.dropWhile isBlank = []) :
    cut afterColon text = [] := by
  rw [cut]
  split
  · rfl
  · rename_i present
    rw [ended] at present
    cases present

theorem cut_of_visible {text : List Char} (visible : text.dropWhile isBlank = first :: rest) :
    cut afterColon text =
      let gap := text.takeWhile isBlank
      let piece := head (afterColon && gap.isEmpty) first rest
      { gap, kind := piece.1, source := first :: rest.take piece.2 }
        :: cut (piece.1 = .colon) (rest.drop piece.2) := by
  rw [cut]
  split
  · rename_i present
    rw [visible] at present
    cases present
  · rename_i present
    rw [visible] at present
    cases present
    rfl

theorem kinds_of_ended {text : List Char} (ended : text.dropWhile isBlank = []) :
    kinds afterColon text = [] := by
  rw [kinds, cut_of_ended ended]
  rfl

theorem kinds_of_visible {text : List Char} (visible : text.dropWhile isBlank = first :: rest) :
    kinds afterColon text =
      let piece := head (afterColon && (text.takeWhile isBlank).isEmpty) first rest
      piece.1 :: kinds (piece.1 = .colon) (rest.drop piece.2) := by
  rw [kinds, cut_of_visible visible]
  rfl

@[simp] theorem kinds_nil : kinds afterColon [] = [] := kinds_of_ended rfl

theorem kinds_blank (blank : isBlank first = true) :
    kinds afterColon (first :: rest) = kinds false rest := by
  have dropped : (first :: rest).dropWhile isBlank = rest.dropWhile isBlank :=
    List.dropWhile_cons_of_pos blank
  cases present : rest.dropWhile isBlank with
  | nil => rw [kinds_of_ended (dropped.trans present), kinds_of_ended present]
  | cons next later =>
      rw [kinds_of_visible (dropped.trans present), kinds_of_visible present,
        List.takeWhile_cons_of_pos blank]
      simp

theorem kinds_cons (visible : isBlank first = false) :
    kinds afterColon (first :: rest) =
      let piece := head afterColon first rest
      piece.1 :: kinds (piece.1 = .colon) (rest.drop piece.2) := by
  have kept : (first :: rest).dropWhile isBlank = first :: rest :=
    List.dropWhile_cons_of_neg (by simp [visible])
  rw [kinds_of_visible kept, List.takeWhile_cons_of_neg (by simp [visible])]
  simp

theorem kinds_punctuation {mark : Char} {kind : Kind} (marks : Kind.punctuation? mark = some kind) :
    kinds afterColon (mark :: rest) = kind :: kinds (kind = .colon) rest := by
  have visible : isBlank mark = false ∧ mark ≠ '"' := by
    unfold Kind.punctuation? at marks
    split at marks <;> first | decide | cases marks
  rw [kinds_cons visible.1]
  simp [head, visible.2, marks]

theorem kinds_sign {sign next : Char} {kind : Kind} (signs : Kind.sign? sign = some kind)
    (attached : isBlank next = false) :
    kinds false (sign :: next :: rest) = kind :: kinds false (next :: rest) := by
  have visible : isBlank sign = false ∧ sign ≠ '"' ∧ Kind.punctuation? sign = none
      ∧ kind ≠ .colon := by
    unfold Kind.sign? at signs
    split at signs <;> cases signs <;> decide
  obtain ⟨visible, noQuote, noMark, noColon⟩ := visible
  rw [kinds_cons visible]
  simp [head, operator?, noQuote, noMark, noColon, signs, attached]

theorem ofWord_ne_colon (word : List Char) : Kind.ofWord word ≠ .colon := by
  unfold Kind.ofWord Kind.keyword?
  split <;> simp

/-- The text is cut off as one piece in front of `rest`, whatever stands before it. -/
def CutOff (text : List Char) (kind : Kind) (rest : List Char) : Prop :=
  ∃ first tail, text = first :: tail ∧ isBlank first = false ∧
    ∀ afterColon, head afterColon first (tail ++ rest) = (kind, tail.length)

theorem CutOff.kinds {text : List Char} {kind : Kind} (whole : CutOff text kind rest)
    (noColon : kind ≠ .colon) :
    kinds afterColon (text ++ rest) = kind :: kinds false rest := by
  obtain ⟨first, tail, rfl, visible, cutOff⟩ := whole
  rw [List.cons_append, kinds_cons visible, cutOff]
  simp [noColon]

theorem cutOff_word (starts : endsWord first = false)
    (operand : ∀ afterColon, operator? afterColon first (tail ++ rest) = none)
    (whole : wordLength (first = '\\') (tail ++ rest) = tail.length) :
    CutOff (first :: tail) (Kind.ofWord (first :: tail)) rest := by
  simp only [endsWord, isDelimiter, Bool.or_eq_false_iff, decide_eq_false_iff_not,
    Option.isSome_eq_false_iff, Option.isNone_iff_eq_none] at starts
  obtain ⟨visible, noQuote, noMark⟩ := starts
  refine ⟨first, tail, rfl, visible, fun afterColon => ?_⟩
  simp [head, noQuote, noMark, operand, whole]

end Lexeme

namespace Text

/-- Nothing more, or a character that ends a word. -/
def AtEdge (rest : List Char) : Prop := ∀ char ∈ rest.head?, endsWord char = true

variable {rest : List Char}

theorem atEdge_nil : AtEdge [] := by simp [AtEdge]

theorem atEdge_cons {char : Char} (ends : endsWord char = true) : AtEdge (char :: rest) := by
  simpa [AtEdge] using ends

theorem atEdge_blank (rest : List Char) : AtEdge (' ' :: rest) := atEdge_cons (by decide)

theorem wordLength_of_atEdge (edge : AtEdge rest) : Lexeme.wordLength false rest = 0 := by
  cases rest with
  | nil => rfl
  | cons char rest =>
      have ends := edge char rfl
      simp [Lexeme.wordLength, ends]

theorem wordLength_guarded (edge : AtEdge rest) (value : List Char) :
    Lexeme.wordLength false (value.flatMap (guarded breaksWord) ++ rest) =
      (value.flatMap (guarded breaksWord)).length := by
  induction value with
  | nil => exact wordLength_of_atEdge edge
  | cons char value ih =>
      rw [List.flatMap_cons, List.append_assoc, guarded]
      split
      · have backslash : endsWord '\\' = false := by decide
        simp [Lexeme.wordLength, backslash, ih]
      · rename_i harmless
        simp only [breaksWord, Bool.or_eq_true, decide_eq_true_eq, not_or,
          Bool.not_eq_true] at harmless
        simp [Lexeme.wordLength, harmless, ih]

theorem plain_of_keyword {word : List Char} (keyword : Kind.keyword? word ≠ none) :
    plain false word = word := by
  unfold Kind.keyword? at keyword
  split at keyword <;> first | rfl | exact absurd rfl keyword

theorem keyword?_spellWord (value : List Char) : Kind.keyword? (spellWord value) = none := by
  cases value with
  | nil => rfl
  | cons first later =>
      rcases spellWord_cons first later with spelled | ⟨_, _, ordinary, _⟩
      · rw [spelled]
        rfl
      · refine Decidable.byContradiction fun keyword => ?_
        have same := plain_of_keyword keyword
        rw [plain_spellWord _ (by simp)] at same
        rw [← same] at keyword
        exact keyword ordinary

theorem isLeading_head_spellWord (value : List Char) :
    ∀ char ∈ (spellWord value).head?, isLeading char = false := by
  cases value with
  | nil =>
      rw [spellWord, List.head?_cons]
      rintro char ⟨⟩
      decide
  | cons first later =>
      rcases spellWord_cons first later with spelled | ⟨_, harmless, _, spelled⟩
      · rw [spelled]
        simp only [List.head?_cons, Option.mem_some_iff, forall_eq']
        decide
      · rw [spelled]
        simpa using harmless

theorem cutOff_harmless {first : Char} (harmless : breaksWord first = false)
    (noSign : isLeading first = false) (edge : AtEdge rest) (later : List Char) :
    Lexeme.CutOff (first :: later.flatMap (guarded breaksWord))
      (Kind.ofWord (first :: later.flatMap (guarded breaksWord))) rest := by
  have whole := wordLength_guarded edge later
  simp only [breaksWord, Bool.or_eq_false_iff, decide_eq_false_iff_not] at harmless
  simp only [isLeading, Bool.or_eq_false_iff, Option.isSome_eq_false_iff,
    Option.isNone_iff_eq_none] at noSign
  refine Lexeme.cutOff_word harmless.2 (fun afterColon => ?_) ?_
  · simp [Lexeme.operator?, noSign]
  · simpa [harmless] using whole

theorem kinds_harmless {afterColon : Bool} {first : Char} (harmless : breaksWord first = false)
    (noSign : isLeading first = false) (edge : AtEdge rest) (later : List Char) :
    Lexeme.kinds afterColon (first :: later.flatMap (guarded breaksWord) ++ rest) =
      Kind.ofWord (first :: later.flatMap (guarded breaksWord)) :: Lexeme.kinds false rest :=
  (cutOff_harmless harmless noSign edge later).kinds (Lexeme.ofWord_ne_colon _)

theorem cutOff_spellWord {value : List Char} (nonempty : value ≠ []) (edge : AtEdge rest) :
    Lexeme.CutOff (spellWord value) (.word (String.ofList (spellWord value))) rest := by
  have word : Kind.ofWord (spellWord value) = .word (String.ofList (spellWord value)) := by
    rw [Kind.ofWord, keyword?_spellWord]
    rfl
  rw [← word]
  cases value with
  | nil => exact absurd rfl nonempty
  | cons first later =>
      rcases spellWord_cons first later with spelled | ⟨harmless, noSign, _, spelled⟩
      · rw [spelled]
        refine Lexeme.cutOff_word (by decide) (fun _ => rfl) ?_
        simpa [Lexeme.wordLength] using wordLength_guarded edge later
      · rw [spelled]
        exact cutOff_harmless harmless noSign edge later

theorem kinds_spellWord {afterColon : Bool} {value : List Char} (nonempty : value ≠ [])
    (edge : AtEdge rest) :
    Lexeme.kinds afterColon (spellWord value ++ rest) =
      .word (String.ofList (spellWord value)) :: Lexeme.kinds false rest :=
  (cutOff_spellWord nonempty edge).kinds (by simp)

theorem phraseLength?_guarded (value rest : List Char) :
    Lexeme.phraseLength? false (value.flatMap (guarded breaksPhrase) ++ '"' :: rest) =
      some (value.flatMap (guarded breaksPhrase)).length := by
  induction value with
  | nil => rfl
  | cons char value ih =>
      rw [List.flatMap_cons, List.append_assoc, guarded]
      split
      · simp [Lexeme.phraseLength?, ih]
      · rename_i harmless
        simp only [breaksPhrase, Bool.or_eq_true, decide_eq_true_eq, not_or] at harmless
        simp [Lexeme.phraseLength?, harmless, ih]

theorem cutOff_spellPhrase (value rest : List Char) :
    Lexeme.CutOff (spellPhrase value)
      (.phrase (String.ofList (value.flatMap (guarded breaksPhrase)))) rest := by
  have whole := phraseLength?_guarded value rest
  refine ⟨'"', value.flatMap (guarded breaksPhrase) ++ ['"'], rfl, by decide, fun _ => ?_⟩
  generalize value.flatMap (guarded breaksPhrase) = inner at whole
  simp [Lexeme.head, whole]

theorem kinds_spellPhrase {afterColon : Bool} (value rest : List Char) :
    Lexeme.kinds afterColon (spellPhrase value ++ rest) =
      .phrase (String.ofList (value.flatMap (guarded breaksPhrase))) ::
        Lexeme.kinds false rest :=
  (cutOff_spellPhrase value rest).kinds (by simp)

end Text

end ScopedFilter
