import ScopedFilter.Text.Spelling

/-!
Which characters of a text are escaped, and the blanks at the end of a text. A backslash escapes the
character after it, unless it is escaped itself. The blanks at the end belong to nothing, but for
the first of them if a backslash escapes it; `content` is what remains without them.
-/

namespace ScopedFilter.Text

/-- Whether a character after the text is escaped; `escaped` says so of the first one in it. -/
def escapes (escaped : Bool) : List Char → Bool
  | [] => escaped
  | char :: rest => escapes (!escaped && char = '\\') rest

def Shields (meaning : Char → Bool) (escaped : Bool) (text : List Char) : Prop :=
  ∀ before char after, text = before ++ char :: after → meaning char = true →
    escapes escaped before = true

section Escape

variable {escaped : Bool}

@[simp] theorem escapes_append (left right : List Char) :
    escapes escaped (left ++ right) = escapes (escapes escaped left) right := by
  induction left generalizing escaped with
  | nil => rfl
  | cons char left ih => exact ih

theorem escapes_of_ne {char : Char} (other : char ≠ '\\') (text : List Char) :
    escapes escaped (text ++ [char]) = false := by
  simp [escapes, other]

theorem shields_nil (meaning : Char → Bool) : Shields meaning escaped [] := by
  intro before char after split
  simp at split

theorem shields_cons {meaning : Char → Bool} {char : Char} {rest : List Char}
    (first : meaning char = true → escaped = true)
    (later : Shields meaning (!escaped && char = '\\') rest) :
    Shields meaning escaped (char :: rest) := by
  intro before found after split meant
  cases before with
  | nil =>
      obtain ⟨rfl, rfl⟩ := List.cons.inj split
      exact first meant
  | cons next before =>
      obtain ⟨rfl, rfl⟩ := List.cons.inj split
      exact later before found after rfl meant

end Escape

/-- The text up to its last character that is visible or escaped; `escaped` says so of the first
character. -/
def content (escaped : Bool) : List Char → List Char
  | [] => []
  | char :: rest =>
      let later := content (!escaped && char = '\\') rest
      if !escaped && isBlank char && later.isEmpty then [] else char :: later

variable {escaped : Bool} {gap text left : List Char}

theorem escapes_of_blank (blank : gap.all isBlank = true) : escapes false gap = false := by
  induction gap with
  | nil => rfl
  | cons char gap ih =>
      rw [List.all_cons, Bool.and_eq_true] at blank
      simp [escapes, ne_backslash_of_isBlank blank.1, ih blank.2]

theorem exists_blanks (escaped : Bool) (text : List Char) :
    ∃ blanks, text = content escaped text ++ blanks ∧ blanks.all isBlank = true ∧
      (blanks ≠ [] → escapes escaped (content escaped text) = false) := by
  induction text generalizing escaped with
  | nil => exact ⟨[], rfl, rfl, fun some => absurd rfl some⟩
  | cons char rest ih =>
      obtain ⟨blanks, split, blank, settled⟩ := ih (!escaped && char = '\\')
      simp only [content]
      split
      · rename_i dropped
        simp only [Bool.and_eq_true, Bool.not_eq_true', List.isEmpty_iff] at dropped
        obtain ⟨⟨fresh, white⟩, ended⟩ := dropped
        rw [ended, List.nil_append] at split
        refine ⟨char :: rest, rfl, ?_, fun _ => fresh⟩
        rw [List.all_cons, white, split, blank]
        rfl
      · exact ⟨blanks, by rw [List.cons_append, ← split], blank, settled⟩

theorem content_of_blank (blank : text.all isBlank = true) : content false text = [] := by
  induction text with
  | nil => rfl
  | cons char rest ih =>
      rw [List.all_cons, Bool.and_eq_true] at blank
      simp [content, blank.1, ne_backslash_of_isBlank blank.1, ih blank.2]

theorem content_append_blank {char : Char} (white : isBlank char = true)
    (fresh : escapes escaped text = false) :
    content escaped (text ++ [char]) = content escaped text := by
  induction text generalizing escaped with
  | nil =>
      rw [escapes] at fresh
      simp [content, fresh, white]
  | cons first rest ih =>
      rw [List.cons_append, content, content, ih fresh]

theorem content_eq_self_iff :
    content escaped text = text ↔
      ∀ before char, text = before ++ [char] → isBlank char = true →
        escapes escaped before = true := by
  constructor
  · rintro whole before char rfl white
    refine Decidable.byContradiction fun fresh => ?_
    rw [content_append_blank white (by simpa using fresh)] at whole
    obtain ⟨blanks, split, _, _⟩ := exists_blanks escaped before
    have longer := congrArg List.length split
    rw [whole] at longer
    simp at longer
  · intro ending
    obtain ⟨blanks, split, blank, settled⟩ := exists_blanks escaped text
    rcases List.eq_nil_or_concat blanks with rfl | ⟨earlier, char, rfl⟩
    · rw [List.append_nil] at split
      exact split.symm
    · rw [List.concat_eq_append] at split blank
      rw [List.all_append, Bool.and_eq_true] at blank
      rw [← List.append_assoc] at split
      have escaping := ending _ char split (by simpa using blank.2)
      rw [escapes_append, settled (by simp), escapes_of_blank blank.1] at escaping
      cases escaping

theorem content_append (whole : content escaped left = left) (right : List Char) :
    content escaped (left ++ right) = left ++ content (escapes escaped left) right := by
  induction left generalizing escaped with
  | nil => rfl
  | cons char rest ih =>
      simp only [content] at whole
      split at whole
      · cases whole
      · rename_i kept
        have inner := (List.cons.inj whole).2
        rw [List.cons_append, content, ih inner, escapes]
        rw [inner] at kept
        cases rest with
        | nil =>
            rw [if_neg]
            · rfl
            · simp only [List.isEmpty_nil, Bool.and_true] at kept
              simp [kept]
        | cons next rest => simp

theorem content_gap (blank : gap.all isBlank = true) {visible : Char}
    (seen : isBlank visible = false) (rest : List Char) :
    content false (gap ++ visible :: rest) = gap ++ content false (visible :: rest) := by
  have present : content false (visible :: rest) ≠ [] := by simp [content, seen]
  induction gap with
  | nil => rfl
  | cons char gap ih =>
      rw [List.all_cons, Bool.and_eq_true] at blank
      have other := ne_backslash_of_isBlank blank.1
      rw [List.cons_append, content]
      simp [other, ih blank.2, present]

theorem content_of_shields (shields : Shields isBlank escaped text) :
    content escaped text = text := by
  rw [content_eq_self_iff]
  rintro before char rfl white
  exact shields before char [] rfl white

end ScopedFilter.Text
