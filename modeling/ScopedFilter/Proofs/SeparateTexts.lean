import ScopedFilter.Proofs.Covering
import ScopedFilter.Proofs.SpelledText

/-!
Texts with a blank between them. If the first ends in no open phrase and escapes nothing after it,
then both are cut as if they stood alone. Main statement: `kinds_append_blank`.
-/

namespace ScopedFilter.Lexeme

open Text

variable {escaped afterColon : Bool} {first blank : Char} {rest more : List Char}

theorem wordLength_le (text : List Char) : wordLength escaped text ≤ text.length := by
  induction text generalizing escaped with
  | nil => exact Nat.le_refl _
  | cons char text ih =>
      rw [wordLength]
      split
      · exact Nat.zero_le _
      · exact Nat.succ_le_succ ih

theorem phraseLength?_lt {text : List Char} {length : Nat}
    (found : phraseLength? escaped text = some length) : length < text.length := by
  induction text generalizing escaped length with
  | nil => cases found
  | cons char text ih =>
      rw [phraseLength?] at found
      split at found
      · cases found
        exact Nat.zero_lt_succ _
      · obtain ⟨shorter, inner, rfl⟩ := Option.map_eq_some_iff.mp found
        exact Nat.succ_lt_succ (ih inner)

theorem head_le (afterColon : Bool) (first : Char) (rest : List Char) :
    (head afterColon first rest).2 ≤ rest.length := by
  unfold head
  split
  · split
    · rename_i found
      exact phraseLength?_lt found
    · exact Nat.le_refl _
  · split
    · exact Nat.zero_le _
    · exact wordLength_le rest

theorem wordLength_append_blank (white : isBlank blank = true) (text : List Char)
    (unescaped : escapes escaped text = false) :
    wordLength escaped (text ++ blank :: more) = wordLength escaped text := by
  induction text generalizing escaped with
  | nil =>
      have ends : endsWord blank = true := by simp [endsWord, white]
      rw [show escaped = false from unescaped]
      simp [wordLength, ends]
  | cons char text ih =>
      rw [List.cons_append, wordLength, wordLength]
      split
      · rfl
      · rw [ih unescaped]

theorem phraseLength?_append {text : List Char} {length : Nat}
    (found : phraseLength? escaped text = some length) (more : List Char) :
    phraseLength? escaped (text ++ more) = some length := by
  induction text generalizing escaped length with
  | nil => cases found
  | cons char text ih =>
      rw [phraseLength?] at found
      rw [List.cons_append, phraseLength?]
      split at found
      · rename_i closes
        rw [if_pos closes]
        exact found
      · rename_i goesOn
        obtain ⟨shorter, inner, rfl⟩ := Option.map_eq_some_iff.mp found
        rw [if_neg goesOn, ih inner]
        rfl

theorem operator?_append_blank (white : isBlank blank = true) :
    operator? afterColon first (rest ++ blank :: more) = operator? afterColon first rest := by
  cases rest with
  | nil =>
      unfold operator?
      cases Kind.sign? first <;> simp [white]
  | cons next rest =>
      rw [List.cons_append]
      unfold operator?
      cases Kind.sign? first <;> rfl

theorem head_append_blank (white : isBlank blank = true)
    (unescaped : escapes (first = '\\') rest = false)
    (closed : (head afterColon first rest).1 ≠ .unterminated) :
    head afterColon first (rest ++ blank :: more) = head afterColon first rest := by
  unfold head at closed ⊢
  split
  · rename_i quote
    rw [if_pos quote] at closed
    cases found : phraseLength? false rest with
    | none => simp [found] at closed
    | some length =>
        have inside := Nat.le_of_lt (phraseLength?_lt found)
        simp only [phraseLength?_append found, List.take_append_of_le_length inside]
  · rw [operator?_append_blank white]
    split
    · rfl
    · have inside := @wordLength_le (first = '\\') rest
      simp only [wordLength_append_blank white rest unescaped,
        List.take_append_of_le_length inside]

theorem escapes_wordLength (text : List Char) :
    text.drop (wordLength escaped text) = [] ∨
      escapes escaped (text.take (wordLength escaped text)) = false := by
  induction text generalizing escaped with
  | nil => exact .inl rfl
  | cons char text ih =>
      rw [wordLength]
      split
      · rename_i ends
        simp only [Bool.and_eq_true, Bool.not_eq_true'] at ends
        exact .inr ends.1
      · exact ih

theorem escapes_head :
    rest.drop (head afterColon first rest).2 = [] ∨
      escapes (first = '\\') (rest.take (head afterColon first rest).2) = false := by
  unfold head
  split
  · split
    · rename_i length found
      obtain ⟨_, _, closing⟩ := phraseLength?_eq_some found
      right
      rw [closing]
      exact escapes_of_ne (by decide) _
    · exact .inl List.drop_length
  · split
    · rename_i kind mark
      right
      rw [List.take_zero, escapes, decide_eq_false_iff_not]
      rintro rfl
      cases rest <;> simp [Kind.punctuation?, operator?, Kind.sign?] at mark
    · exact escapes_wordLength rest

theorem escapes_after_head (unescaped : escapes (first = '\\') rest = false) :
    escapes false (rest.drop (head afterColon first rest).2) = false := by
  rcases @escapes_head afterColon first rest with ended | settled
  · rw [ended]
    rfl
  · rwa [← List.take_append_drop (head afterColon first rest).2 rest, escapes_append,
      settled] at unescaped

/-- Induction along the pieces of a text: blanks are passed one by one, and what starts with a
visible character is cut off as a whole. -/
@[elab_as_elim]
theorem piece_induction {motive : Bool → List Char → Prop}
    (nil : ∀ {afterColon}, motive afterColon [])
    (blank : ∀ {afterColon first rest}, isBlank first = true → motive false rest →
      motive afterColon (first :: rest))
    (visible : ∀ {afterColon first rest}, isBlank first = false →
      motive ((head afterColon first rest).1 = .colon) (rest.drop (head afterColon first rest).2) →
      motive afterColon (first :: rest))
    (afterColon : Bool) (text : List Char) : motive afterColon text := by
  induction measure : text.length using Nat.strongRecOn generalizing text afterColon with
  | ind length ih =>
      cases text with
      | nil => exact nil
      | cons first rest =>
          rw [List.length_cons] at measure
          by_cases white : isBlank first = true
          · exact blank white (ih rest.length (by omega) _ _ rfl)
          · refine visible (by simpa using white) (ih _ ?_ _ _ rfl)
            rw [List.length_drop]
            omega

theorem kinds_append_blank (white : isBlank blank = true) (text : List Char)
    (unescaped : escapes false text = false) (closed : .unterminated ∉ kinds afterColon text) :
    kinds afterColon (text ++ blank :: more) =
      kinds afterColon text ++ kinds false (blank :: more) := by
  induction afterColon, text using piece_induction with
  | nil =>
      rw [List.nil_append, kinds_nil, List.nil_append]
      rw [kinds_blank white, kinds_blank white]
  | blank passed ih =>
      rw [kinds_blank passed] at closed
      rw [List.cons_append, kinds_blank passed, kinds_blank passed]
      exact ih (by simpa [escapes, ne_backslash_of_isBlank passed] using unescaped) closed
  | @visible afterColon first rest seen ih =>
      rw [escapes, Bool.not_false, Bool.true_and] at unescaped
      rw [List.cons_append]
      simp only [kinds_cons seen, List.mem_cons, not_or] at closed ⊢
      have shorter := head_le afterColon first rest
      rw [head_append_blank white unescaped (Ne.symm closed.1),
        List.drop_append_of_le_length shorter, List.cons_append]
      congr 1
      exact ih (escapes_after_head unescaped) closed.2

end ScopedFilter.Lexeme
