import ScopedFilter.Json.Reading
import ScopedFilter.Json.Value

/-!
Written JSON is read back. Characters come back one by one, items and members between their commas,
and a value as a whole in front of everything that may stand behind it. Main statement:
`parse?_written`.
-/

namespace ScopedFilter

namespace Json

def Piece.written (char : Char) : Piece :=
  if char < ' ' ∧ char ∉ ['\x08', '\t', '\n', '\x0c', '\r'] then .unit char.toNat else .char char

theorem hexCode?_written : ∀ code < 32,
    hexCode? ['0', '0', hexDigit (code / 16), hexDigit (code % 16)] = some code := by
  decide

theorem run_piece_visible {char : Char} (noBackslash : char ≠ '\\') (noQuote : char ≠ '"')
    (visible : ¬char < ' ') (rest : List Char) :
    piece.run (char :: rest) = .done (.char char) rest := by
  simp only [piece, Step.run_look]
  split
  · rename_i escape
    exact absurd (List.cons.inj escape).1 noBackslash
  · rename_i escape
    exact absurd (List.cons.inj escape).1 noBackslash
  · rename_i same
    obtain ⟨rfl, rfl⟩ := List.cons.inj same
    rw [if_neg (by simp [noBackslash, noQuote, visible])]
    rfl
  · rename_i empty
    cases empty

theorem run_piece_escapedChar (char : Char) (rest : List Char) :
    piece.run (escapedChar char ++ rest) = .done (.written char) rest := by
  unfold escapedChar
  split
  case h_8 noQuote noBackslash noBackspace noTab noLine noPage noReturn =>
    split
    · rename_i control
      have code := hexCode?_written char.toNat control
      have asCode : Piece.written char = .unit char.toNat := by
        simp only [Piece.written, List.mem_cons, List.not_mem_nil, or_false, not_or]
        exact if_pos ⟨control, noBackspace, noTab, noLine, noPage, noReturn⟩
      simp [piece, code, asCode, Step.takes]
    · rename_i visible
      have itself : Piece.written char = .char char := by simp [Piece.written, visible]
      rw [itself]
      exact run_piece_visible noBackslash noQuote visible rest
  all_goals rfl

theorem decoded?_written (char : Char) (later : List Piece) :
    decoded? (.written char :: later) = (decoded? later).map (char :: ·) := by
  unfold Piece.written
  split
  · rename_i control
    have low : char.toNat < 32 := control.1
    have noHigh : isHighSurrogate char.toNat = false := by
      simp only [isHighSurrogate, Bool.and_eq_false_iff, decide_eq_false_iff_not]
      omega
    have noLow : isLowSurrogate char.toNat = false := by
      simp only [isLowSurrogate, Bool.and_eq_false_iff, decide_eq_false_iff_not]
      omega
    rcases later with _ | ⟨_ | _, later⟩ <;> simp [decoded?, noHigh, noLow, Char.ofNat_toNat]
  · rfl

theorem decoded?_map_written (text : List Char) : decoded? (text.map .written) = some text := by
  induction text with
  | nil => rfl
  | cons char text ih =>
      rw [List.map_cons, decoded?_written, ih]
      rfl

section operands

variable {σ ε α β : Type} {gap? : List σ → Option Nat} {operand : Step σ ε α}
  {written : β → List σ} {value : β → α} {settled : List σ → Prop} {separator ending : List σ}

theorem run_operands_written {first : β} {more : List β}
    (each : ∀ item ∈ first :: more, ∀ rest, settled rest →
      operand.run (written item ++ rest) = .done (value item) rest)
    (between : ∀ item ∈ more, ∀ rest, settled (separator ++ (written item ++ rest)) ∧
      gap? (separator ++ (written item ++ rest)) = some separator.length)
    (ended : settled ending) (stops : gap? ending = none) :
    (Step.operands gap? operand).run
        (written first ++ (more.flatMap (fun item => separator ++ written item) ++ ending)) =
      .done ((first :: more).map value) ending := by
  induction more generalizing first with
  | nil =>
      have read := each first (by simp) ending ended
      refine (Step.operandsFrom_eq _ _ _).trans ?_
      rw [List.flatMap_nil, List.nil_append, read]
      simp only [stops]
      rfl
  | cons next more ih =>
      have later := ih (fun item known => each item (List.mem_cons_of_mem _ known))
        (fun item known => between item (List.mem_cons_of_mem _ known))
      rw [List.flatMap_cons, List.append_assoc, List.append_assoc]
      obtain ⟨goesOn, gap⟩ := between next (by simp)
        (more.flatMap (fun item => separator ++ written item) ++ ending)
      refine (Step.operandsFrom_eq _ _ _).trans ?_
      rw [each first (by simp) _ goesOn]
      simp only [gap, List.drop_left]
      exact congrArg (Reply.map (value first :: ·)) later

end operands

theorem head?_escapedChar (char : Char) (rest : List Char) :
    (escapedChar char ++ rest).head? ≠ some '"' := by
  unfold escapedChar
  split
  case h_8 noQuote _ _ _ _ _ _ =>
    split
    · simp
    · simpa using noQuote
  all_goals simp

theorem run_pieces_written (text rest : List Char) :
    pieces.run (text.flatMap escapedChar ++ '"' :: rest) = .done (text.map .written) rest := by
  cases text with
  | nil => rfl
  | cons first more =>
      have read := @run_operands_written _ _ _ _
        (fun rest => if rest.head? = some '"' then none else some 0) piece escapedChar .written
        (fun _ => True) [] ('"' :: rest) first more
        (fun char _ rest _ => run_piece_escapedChar char rest)
        (fun char _ rest => ⟨trivial, if_neg (head?_escapedChar char rest)⟩) trivial (if_pos rfl)
      simp only [List.nil_append] at read
      rw [List.flatMap_cons, List.append_assoc]
      simp only [pieces, Step.run_look, if_neg (head?_escapedChar first _)]
      exact Step.run_bind_eq_done.mpr ⟨_, _, read, rfl⟩

theorem run_pieces_lone (rest : List Char) :
    pieces.run ('\\' :: 'u' :: 'd' :: '8' :: '0' :: '0' :: '"' :: rest) =
      .done [.unit 0xD800] rest := by
  have unit : piece.run ('\\' :: 'u' :: 'd' :: '8' :: '0' :: '0' :: '"' :: rest) =
      .done (.unit 0xD800) ('"' :: rest) := rfl
  refine Step.run_bind_eq_done.mpr ⟨_, '"' :: rest, ?_, rfl⟩
  exact (Step.operandsFrom_eq _ _ _).trans (by rw [unit]; rfl)

theorem quotedOrLone_eq (text : Option String) :
    quotedOrLone text = '"' :: (quotedOrLone text).tail := by
  cases text <;> rfl

theorem run_quotedRest (text : Option String) (rest : List Char) :
    quotedRest.run ((quotedOrLone text).tail ++ rest) = .done text rest := by
  cases text with
  | none => exact Step.run_map_eq_done.mpr ⟨_, run_pieces_lone rest, rfl⟩
  | some text =>
      rw [quotedOrLone, quoted, List.cons_append, List.tail_cons, List.append_assoc]
      refine Step.run_map_eq_done.mpr ⟨_, run_pieces_written text.toList rest, ?_⟩
      rw [decoded?_map_written, Option.map_some, String.ofList_toList]

theorem commaSeparated_cons (first : List Char) (more : List (List Char)) :
    commaSeparated (first :: more) = first ++ more.flatMap (',' :: ·) := by
  induction more generalizing first with
  | nil => simp [commaSeparated]
  | cons next more ih =>
      have later := ih next
      unfold commaSeparated at later ⊢
      rw [List.intercalate_cons_cons, later, List.flatMap_cons]
      simp

theorem length_le_commaSeparated {word : List Char} {words : List (List Char)}
    (known : word ∈ words) : word.length ≤ (commaSeparated words).length := by
  cases words with
  | nil => cases known
  | cons first more =>
      rw [commaSeparated_cons, List.length_append]
      rcases List.mem_cons.mp known with rfl | later
      · exact Nat.le_add_right _ _
      · have inside := List.sublist_flatten_of_mem (List.mem_map_of_mem (f := (',' :: ·)) later)
        have shorter := inside.length_le
        rw [List.length_cons, ← List.flatMap_def] at shorter
        omega

def Settled (rest : List Char) : Prop :=
  ∀ char ∈ rest.head?, char = ',' ∨ char = ']' ∨ char = '\x7d'

theorem settled_nil : Settled [] := by simp [Settled]

theorem settled_cons {char : Char} (settles : char = ',' ∨ char = ']' ∨ char = '\x7d')
    (rest : List Char) : Settled (char :: rest) := by
  simpa [Settled] using settles

def Starts (close : Char) (text : List Char) : Prop :=
  ∃ char more, text = char :: more ∧ isSpace char = false ∧ char ≠ close

theorem run_skipping {α : Type} {char : Char} (visible : isSpace char = false) (step : CharStep α)
    (rest : List Char) :
    (Step.skipping isSpace step).run (char :: rest) = step.run (char :: rest) :=
  congrArg step.run (List.dropWhile_cons_of_neg (by simp [visible]))

theorem run_items {α : Type} {close : Char} {item : CharStep α} {written : α → List Char}
    (closes : close = ']' ∨ close = '\x7d') (values : List α) (rest : List Char)
    (starts : ∀ value ∈ values, Starts close (written value))
    (each : ∀ value ∈ values, ∀ rest, Settled rest →
      item.run (written value ++ rest) = .done value rest) :
    (items close item).run (commaSeparated (values.map written) ++ close :: rest) =
      .done values rest := by
  have noSpace : isSpace close = false := by rcases closes with rfl | rfl <;> rfl
  have noComma : close ≠ ',' := by rcases closes with rfl | rfl <;> decide
  cases values with
  | nil => simp [items, run_skipping noSpace, commaSeparated]
  | cons first more =>
      have read := @run_operands_written _ _ _ _ commaGap? item written id Settled [',']
        (close :: rest) first more each
        (fun value known rest => ⟨settled_cons (.inl rfl) _, rfl⟩)
        (settled_cons (.inr closes) rest) (by simp [commaGap?, noSpace, noComma])
      obtain ⟨char, later, start, visible, other⟩ := starts first (by simp)
      rw [List.map_cons, commaSeparated_cons, List.flatMap_map, List.append_assoc]
      simp only [List.map_id, start, List.cons_append, List.nil_append] at read ⊢
      rw [items, run_skipping visible]
      simp only [Step.run_look, List.head?_cons, Option.some.injEq, if_neg other]
      refine Step.run_bind_eq_done.mpr ⟨_, _, read, ?_⟩
      rw [run_skipping noSpace]
      exact Step.run_map_eq_done.mpr ⟨(), Step.run_expect_eq_done.mpr rfl, rfl⟩

theorem numberLength?_zero {rest : List Char} (settled : Settled rest) :
    numberLength? ('0' :: rest) = some 1 := by
  have ended : digits rest = 0 ∧ fractionLength? rest = some 0 ∧ exponentLength? rest = some 0 := by
    cases rest with
    | nil => exact ⟨rfl, rfl, rfl⟩
    | cons char rest => rcases settled char rfl with rfl | rfl | rfl <;> exact ⟨rfl, rfl, rfl⟩
  have one : digits ('0' :: rest) = digits rest + 1 := rfl
  have whole : wholeLength? ('0' :: rest) = some 1 := by simp [wholeLength?, one, ended.1]
  simp [numberLength?, signLength, whole, ended.2]

theorem run_member {depth : Nat} {key : Option String} {content : JsonValue} {rest : List Char}
    (read : (value depth).run (content.written ++ rest) = .done content rest) :
    (member (value depth)).run ((quotedOrLone key ++ ':' :: content.written) ++ rest) =
      .done (key, content) rest := by
  rw [List.append_assoc, List.cons_append, quotedOrLone_eq]
  refine Step.run_bind_eq_done.mpr ⟨key, ':' :: (content.written ++ rest), ?_, ?_⟩
  · exact run_quotedRest key _
  · refine Step.run_bind_eq_done.mpr ⟨(), content.written ++ rest, rfl, ?_⟩
    exact Step.run_map_eq_done.mpr ⟨_, read, rfl⟩

theorem starts_written (content : JsonValue) : Starts ']' content.written := by
  cases content with
  | null => exact ⟨'n', _, by rw [JsonValue.written]; rfl, by decide, by decide⟩
  | bool truth =>
      cases truth with
      | false => exact ⟨'f', _, by rw [JsonValue.written]; rfl, by decide, by decide⟩
      | true => exact ⟨'t', _, by rw [JsonValue.written]; rfl, by decide, by decide⟩
  | number => exact ⟨'0', _, by rw [JsonValue.written], by decide, by decide⟩
  | string text =>
      exact ⟨'"', _, by rw [JsonValue.written, quotedOrLone_eq], by decide, by decide⟩
  | array items =>
      exact ⟨'[', _, by rw [JsonValue.written, List.cons_append], by decide, by decide⟩
  | object members =>
      exact ⟨'\x7b', _, by rw [JsonValue.written, List.cons_append], by decide, by decide⟩

/-- Values lie in one another at most as deep as their text is long. -/
theorem run_value_written {depth : Nat} {content : JsonValue} {rest : List Char}
    (enough : content.written.length ≤ depth) (settled : Settled rest) :
    (value depth).run (content.written ++ rest) = .done content rest := by
  induction depth generalizing content rest with
  | zero =>
      obtain ⟨_, _, start, _⟩ := starts_written content
      simp [start] at enough
  | succ depth ih =>
      cases content with
      | null => rw [JsonValue.written]; rfl
      | bool truth => rw [JsonValue.written]; cases truth <;> rfl
      | number =>
          rw [JsonValue.written]
          simp [value, Step.skipping, number, isSpace, numberLength?_zero settled, Step.takes]
      | string text =>
          rw [JsonValue.written, quotedOrLone_eq]
          exact Step.run_map_eq_done.mpr ⟨_, run_quotedRest text rest, rfl⟩
      | array contents =>
          rw [JsonValue.written, List.length_append, List.length_cons] at enough
          have read := run_items (.inl rfl) contents rest (fun content _ => starts_written content)
            fun content known rest settled => by
              have inside := length_le_commaSeparated
                (List.mem_map_of_mem (f := JsonValue.written) known)
              exact ih (by omega) settled
          rw [JsonValue.written, List.cons_append, List.cons_append, List.append_assoc]
          exact Step.run_map_eq_done.mpr ⟨_, read, rfl⟩
      | object members =>
          rw [JsonValue.written, List.length_append, List.length_cons] at enough
          have starts (member : Option String × JsonValue) :
              Starts '\x7d' (quotedOrLone member.1 ++ ':' :: member.2.written) :=
            ⟨'"', _, by rw [quotedOrLone_eq, List.cons_append], by decide, by decide⟩
          have read := run_items (.inr rfl) members rest (fun member _ => starts member)
            fun member known rest settled => by
              have inside := length_le_commaSeparated (List.mem_map_of_mem
                (f := fun member => quotedOrLone member.1 ++ ':' :: member.2.written) known)
              rw [List.length_append, List.length_cons] at inside
              exact run_member (ih (by omega) settled)
          rw [JsonValue.written, List.cons_append, List.cons_append, List.append_assoc]
          exact Step.run_map_eq_done.mpr ⟨_, read, rfl⟩

end Json

theorem JsonValue.parse?_written (content : JsonValue) :
    JsonValue.parse? content.written = some content := by
  have read := Json.run_value_written (Nat.le_refl content.written.length) Json.settled_nil
  rw [List.append_nil] at read
  rw [parse?, read]
  rfl

end ScopedFilter
