import Mathlib
import ScopedFilter.Proofs.Covering
import ScopedFilter.Proofs.WrittenLeaf

/-!
Spelled words and phrases in a text. Reading token by token yields the tokens of the text, and where
it comes to stand in front of a spelled word or phrase it takes that as a whole. Main statement:
`next?_spelled`.
-/

namespace ScopedFilter

open Text

namespace Lexeme

variable {afterColon other : Bool} {first : Char} {rest : List Char}

theorem atEdge_wordLength {escaped : Bool} (text : List Char) :
    AtEdge (text.drop (wordLength escaped text)) := by
  induction text generalizing escaped with
  | nil => exact atEdge_nil
  | cons char text ih =>
      rw [wordLength]
      split
      · rename_i ends
        simp only [Bool.and_eq_true] at ends
        exact atEdge_cons ends.2
      · exact ih

theorem head_of_endsWord (ends : endsWord first = true) (visible : isBlank first = false) :
    head afterColon first rest = head other first rest := by
  have noSign : Kind.sign? first = none := by
    simp only [endsWord, visible, isDelimiter, Bool.false_or, Bool.or_eq_true,
      decide_eq_true_eq] at ends
    rcases ends with rfl | mark
    · rfl
    · unfold Kind.punctuation? at mark
      split at mark <;> first | rfl | cases mark
  simp [head, operator?, noSign]

theorem cut_of_atEdge {text : List Char} (edge : AtEdge text) :
    cut afterColon text = cut other text := by
  cases present : text.dropWhile isBlank with
  | nil => rw [cut_of_ended present, cut_of_ended present]
  | cons first rest =>
      rw [cut_of_visible present, cut_of_visible present]
      cases gap : text.takeWhile isBlank with
      | cons blank gap => simp
      | nil =>
          have whole := @List.takeWhile_append_dropWhile _ isBlank text
          rw [gap, present, List.nil_append] at whole
          have visible := List.head?_dropWhile_not isBlank text
          rw [present] at visible
          have same := @head_of_endsWord afterColon other first rest
            (edge first (by rw [← whole]; rfl)) (by simpa using visible)
          simp only [List.isEmpty_nil, Bool.and_true, same]

theorem colon_head (afterColon : Bool) (first : Char) (rest : List Char) :
    ((head afterColon first rest).1 = .colon ↔
      (first :: rest.take (head afterColon first rest).2).getLast? = some ':') ∨
    AtEdge (rest.drop (head afterColon first rest).2) := by
  unfold head
  split
  · rename_i quote
    subst quote
    split
    · rename_i length found
      obtain ⟨_, _, closing⟩ := phraseLength?_eq_some found
      left
      rw [closing, ← List.cons_append, List.getLast?_append]
      simp
    · rw [List.drop_length]
      exact .inr atEdge_nil
  · split
    · rename_i kind mark
      left
      rw [List.take_zero, List.getLast?_singleton]
      rcases Option.or_eq_some_iff.mp mark with marks | ⟨_, operates⟩
      · unfold Kind.punctuation? at marks
        split at marks <;> cases marks <;> simp
      · have signs := sign?_of_operator? operates
        unfold Kind.sign? at signs
        split at signs <;> cases signs <;> simp
    · exact .inr (atEdge_wordLength rest)

end Lexeme

namespace Cursor

theorem colon_append_gap {gap : List Char} (blank : gap.all isBlank = true) (before : List Char) :
    (decide (before.getLast? = some ':') && gap.isEmpty) =
      decide ((before ++ gap).getLast? = some ':') := by
  rcases List.eq_nil_or_concat gap with rfl | ⟨earlier, char, rfl⟩
  · simp
  · have noColon : char ≠ ':' := by
      rintro rfl
      simp [isBlank, blankRuns] at blank
    simp [← List.append_assoc, noColon]

theorem remaining_eq (cursor : Cursor) :
    cursor.remaining =
      match cursor.next? with
      | none => []
      | some (token, after) => token :: after.remaining := by
  obtain ⟨before, ahead⟩ := cursor
  simp only [remaining, next?]
  cases present : ahead.dropWhile isBlank with
  | nil =>
      rw [Lexeme.cut_of_ended present]
      rfl
  | cons first rest =>
      rw [Lexeme.cut_of_visible present]
      simp only [colon_append_gap List.all_takeWhile before]
      generalize decide ((before ++ ahead.takeWhile isBlank).getLast? = some ':') = afterColon
      simp only [Lexeme.placed, width_append, Nat.add_assoc]
      refine congrArg _ (congrArg _ ?_)
      rcases Lexeme.colon_head afterColon first rest with same | edge
      · simp [same]
      · exact Lexeme.cut_of_atEdge edge

theorem next?_blank {first : Char} (blank : isBlank first = true) (before rest : List Char) :
    next? ⟨before, first :: rest⟩ = next? ⟨before ++ [first], rest⟩ := by
  simp only [next?, List.takeWhile_cons_of_pos blank, List.dropWhile_cons_of_pos blank,
    List.append_assoc, List.singleton_append]

theorem Reaches.remaining_eq {cursor after : Cursor} {tokens : List Token}
    (reaches : Reaches cursor tokens after) : cursor.remaining = tokens ++ after.remaining := by
  induction reaches with
  | here => rfl
  | blank white _ ih =>
      rw [Cursor.remaining_eq, next?_blank white, ← Cursor.remaining_eq, ih]
  | next found _ ih =>
      rw [Cursor.remaining_eq, found]
      exact congrArg _ ih

/-- Where reading stands behind `before`, it takes `spelled` as one token and stays in front of
`after`; all texts in which it comes to stand there have that token. -/
def Takes (before spelled after : List Char) (kind : Kind) : Prop :=
  let token : Token := ⟨kind, width before, width (before ++ spelled)⟩
  next? ⟨before, spelled ++ after⟩ = some (token, ⟨before ++ spelled, after⟩) ∧
    ∀ text tokens, Reaches (ofText text) tokens ⟨before, spelled ++ after⟩ →
      Token.ofText text = tokens ++ token :: remaining ⟨before ++ spelled, after⟩

theorem takes_of_cutOff {spelled after : List Char} {kind : Kind}
    (whole : Lexeme.CutOff spelled kind after) (before : List Char) :
    Takes before spelled after kind := by
  obtain ⟨first, tail, rfl, visible, cutOff⟩ := whole
  have taken : next? ⟨before, first :: tail ++ after⟩ =
      some (⟨kind, width before, width (before ++ first :: tail)⟩,
        ⟨before ++ first :: tail, after⟩) := by
    simp [next?, visible, cutOff]
  refine ⟨taken, fun text tokens reaches => ?_⟩
  have whole := reaches.remaining_eq
  rwa [remaining_eq ⟨before, _⟩, taken] at whole

/-- What is spelled stands alone as one token behind whatever came before, and has the value that
was spelled. A spelled word never is a comparison. -/
theorem next?_spelled {after : List Char} (edge : AtEdge after) (before : List Char)
    (value : String) :
    (value ≠ "" →
      let raw := String.ofList (spellWord value.toList)
      Takes before (spellWord value.toList) after (.word raw) ∧ unescaped raw = value ∧
        ∀ field, Reading.comparison? field raw.toList = none) ∧
    ∃ raw : String, spellPhrase value.toList = '"' :: raw.toList ++ ['"'] ∧
      Takes before (spellPhrase value.toList) after (.phrase raw) ∧ unescaped raw = value := by
  constructor
  · intro nonempty
    have whole := cutOff_spellWord (mt String.toList_eq_nil_iff.mp nonempty) edge
    refine ⟨takes_of_cutOff whole before, unescaped_spelled nonempty, fun field => ?_⟩
    rw [Option.eq_none_iff_forall_ne_some]
    intro leaf compared
    exact not_comparison_spelled (Reading.comparison?_eq_some_iff.mp compared)
  · have whole := cutOff_spellPhrase value.toList after
    refine ⟨_, ?_, takes_of_cutOff whole before, unescaped_spelledPhrase value⟩
    rw [String.toList_ofList]
    rfl

theorem next?_spelled_bound :
    AtEdge " TO 9]".toList ∧
      Token.ofText "é:[ \\-5\\ x TO 9]" =
        [⟨.word "é", 0, 2⟩, ⟨.colon, 2, 3⟩, ⟨.leftBracket, 3, 4⟩, ⟨.word "\\-5\\ x", 5, 11⟩,
          ⟨.upTo, 12, 14⟩, ⟨.word "9", 15, 16⟩, ⟨.rightBracket, 16, 17⟩] ∧
      Token.ofText "é:[ \"-5 \\\"x\" TO 9]" =
        [⟨.word "é", 0, 2⟩, ⟨.colon, 2, 3⟩, ⟨.leftBracket, 3, 4⟩, ⟨.phrase "-5 \\\"x", 5, 13⟩,
          ⟨.upTo, 14, 16⟩, ⟨.word "9", 17, 18⟩, ⟨.rightBracket, 18, 19⟩] := by
  have edge : AtEdge " TO 9]".toList := atEdge_blank _
  have stands (bound : List Char) (text : String)
      (written : text.toList = "é:[ ".toList ++ (bound ++ " TO 9]".toList)) :
      Reaches (ofText text) [⟨.word "é", 0, 2⟩, ⟨.colon, 2, 3⟩, ⟨.leftBracket, 3, 4⟩]
        ⟨"é:[ ".toList, bound ++ " TO 9]".toList⟩ := by
    rw [ofText, written]
    exact .next rfl (.next rfl (.next rfl (.blank rfl .here)))
  have word := ((next?_spelled edge "é:[ ".toList "-5 x").1 (by decide)).1.2 _ _
    (stands _ "é:[ \\-5\\ x TO 9]" (by decide))
  obtain ⟨raw, spelled, phrase, _⟩ := (next?_spelled edge "é:[ ".toList "-5 \"x").2
  have escaped : spellPhrase "-5 \"x".toList = '"' :: "-5 \\\"x".toList ++ ['"'] := by decide
  have raw : raw = "-5 \\\"x" :=
    String.toList_inj.mp (List.append_cancel_right (List.cons.inj (spelled.symm.trans escaped)).2)
  refine ⟨edge, word.trans ?_, (phrase.2 _ _ (stands _ _ (by decide))).trans ?_⟩
  · cbv
  · rw [raw]
    cbv

end Cursor

end ScopedFilter
