/-!
The width of a text in bytes of UTF-8. Offsets into a text count bytes, while the text itself is
handled as a list of characters.
-/

namespace ScopedFilter.Text

def width (text : List Char) : Nat := text.foldr (fun char total => char.utf8Size + total) 0

@[simp] theorem width_nil : width [] = 0 := rfl

@[simp] theorem width_cons (char : Char) (text : List Char) :
    width (char :: text) = char.utf8Size + width text := rfl

@[simp] theorem width_append (left right : List Char) :
    width (left ++ right) = width left + width right := by
  induction left with
  | nil => simp
  | cons char left ih => simp [ih, Nat.add_assoc]

theorem utf8ByteSize_ofList (text : List Char) :
    (String.ofList text).utf8ByteSize = width text := by
  induction text with
  | nil => rfl
  | cons char text ih =>
      rw [width_cons, String.ofList_cons, String.utf8ByteSize_append,
        String.utf8ByteSize_singleton, ih]

/-- The bytes of the text from `start` up to `stop` are those of the characters of `piece`. -/
def Stretch (text : List Char) (start stop : Nat) (piece : List Char) : Prop :=
  ∃ before after, text = before ++ piece ++ after ∧ start = width before ∧
    stop = width (before ++ piece)

theorem Stretch.start_lt_stop {text piece : List Char} {start stop : Nat}
    (stretch : Stretch text start stop piece) (nonempty : piece ≠ []) : start < stop := by
  obtain ⟨before, after, _, rfl, rfl⟩ := stretch
  obtain ⟨first, rest, rfl⟩ := List.exists_cons_of_ne_nil nonempty
  have positive := first.utf8Size_pos
  rw [width_append, width_cons]
  omega

theorem Stretch.stop_le_width {text piece : List Char} {start stop : Nat}
    (stretch : Stretch text start stop piece) : stop ≤ width text := by
  obtain ⟨before, after, rfl, rfl, rfl⟩ := stretch
  rw [width_append _ after]
  omega

theorem mem_of_width {left piece right before after : List Char} {char : Char}
    (split : left ++ (piece ++ right) = before ++ char :: after)
    (lower : width left ≤ width before) (upper : width before < width left + width piece) :
    char ∈ piece := by
  rcases List.append_eq_append_iff.mp split with ⟨more, rfl, inner⟩ | ⟨more, rfl, inner⟩
  · rw [width_append] at upper
    rcases List.append_eq_append_iff.mp inner with ⟨later, rfl, _⟩ | ⟨later, rfl, ending⟩
    · rw [width_append] at upper
      omega
    · cases later with
      | nil => simp at upper
      | cons next later =>
          obtain ⟨rfl, _⟩ := List.cons.inj ending
          simp
  · cases more with
    | nil =>
        cases piece with
        | nil => simp at upper
        | cons next piece =>
            obtain ⟨rfl, _⟩ := List.cons.inj inner
            simp
    | cons next more =>
        have positive := next.utf8Size_pos
        rw [width_append, width_cons] at lower
        omega

end ScopedFilter.Text
