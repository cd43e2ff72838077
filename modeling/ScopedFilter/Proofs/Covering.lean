import ScopedFilter.Query.Lexeme
import ScopedFilter.Text.Content

/-!
Tokens cover their text. Each takes whole characters, spelled as its kind asks; they follow one
another, and all that lies between them is blank. Main statement: `covers_ofText`.
-/

namespace ScopedFilter

open Text

/-- The characters that a token of some kind takes. Nothing that would end a word or a phrase stands
inside one unescaped, and a phrase ends with the first quote that is not escaped. -/
inductive Spelled : Kind → List Char → Prop
  | and : Spelled .and "AND".toList
  | andSign : Spelled .and "&&".toList
  | or : Spelled .or "OR".toList
  | orSign : Spelled .or "||".toList
  | not : Spelled .not "NOT".toList
  | upTo : Spelled .upTo "TO".toList
  | word {raw : String} : raw ≠ "" → Shields endsWord false raw.toList →
      Spelled (.word raw) raw.toList
  | phrase {raw : String} : Shields (· = '"') false raw.toList →
      escapes false raw.toList = false → Spelled (.phrase raw) ('"' :: raw.toList ++ ['"'])
  | leftParen : Spelled .leftParen ['(']
  | rightParen : Spelled .rightParen [')']
  | leftBracket : Spelled .leftBracket ['[']
  | rightBracket : Spelled .rightBracket [']']
  | leftBrace : Spelled .leftBrace ['\x7b']
  | rightBrace : Spelled .rightBrace ['\x7d']
  | colon : Spelled .colon [':']
  | minus : Spelled .minus ['-']
  | plus : Spelled .plus ['+']
  | bang : Spelled .bang ['!']
  | unterminated {rest : List Char} : Shields (· = '"') false rest →
      Spelled .unterminated ('"' :: rest)

theorem Spelled.ne_nil {kind : Kind} {piece : List Char} (spelled : Spelled kind piece) :
    piece ≠ [] := by
  cases spelled with
  | word nonempty _ => exact mt String.toList_eq_nil_iff.mp nonempty
  | _ => simp

structure Covers (text : String) (tokens : List Token) : Prop where
  spelled : ∀ token ∈ tokens, ∃ piece, Stretch text.toList token.start token.stop piece ∧
    Spelled token.kind piece
  nonempty : ∀ token ∈ tokens, token.start < token.stop
  within : ∀ token ∈ tokens, token.stop ≤ text.utf8ByteSize
  ordered : tokens.Pairwise fun earlier later => earlier.stop ≤ later.start
  between : ∀ before char after, text.toList = before ++ char :: after →
    (∀ token ∈ tokens, width before < token.start ∨ token.stop ≤ width before) →
    isBlank char = true
  closed : ∀ token ∈ tokens.dropLast, token.kind ≠ .unterminated
  unclosed : ∀ token ∈ tokens, token.kind = .unterminated → token.stop = text.utf8ByteSize

namespace Lexeme

inductive Pieces : List Char → List Lexeme → Prop
  | ended {text} : text.all isBlank = true → Pieces text []
  | piece {gap source rest kind lexemes} : gap.all isBlank = true → Spelled kind source →
      (kind = .unterminated → rest = []) → Pieces rest lexemes →
      Pieces (gap ++ source ++ rest) ({ gap, kind, source } :: lexemes)

variable {escaped afterColon : Bool} {first : Char} {rest : List Char}

theorem shields_wordLength (text : List Char) :
    Shields endsWord escaped (text.take (wordLength escaped text)) := by
  induction text generalizing escaped with
  | nil => exact shields_nil _
  | cons char text ih =>
      rw [wordLength]
      split
      · exact shields_nil _
      · rename_i goesOn
        apply shields_cons
        · intro ends
          simpa [ends] using goesOn
        · exact ih

theorem phraseLength?_eq_none (text : List Char) (found : phraseLength? escaped text = none) :
    Shields (· = '"') escaped text := by
  induction text generalizing escaped with
  | nil => exact shields_nil _
  | cons char text ih =>
      rw [phraseLength?] at found
      split at found
      · cases found
      · rename_i goesOn
        apply shields_cons
        · intro quote
          simpa [quote] using goesOn
        · exact ih (Option.map_eq_none_iff.mp found)

theorem phraseLength?_eq_some {text : List Char} {length : Nat}
    (found : phraseLength? escaped text = some length) :
    Shields (· = '"') escaped (text.take length) ∧ escapes escaped (text.take length) = false ∧
      text.take (length + 1) = text.take length ++ ['"'] := by
  induction text generalizing escaped length with
  | nil => cases found
  | cons char text ih =>
      rw [phraseLength?] at found
      split at found
      · rename_i closes
        cases found
        simp only [Bool.and_eq_true, Bool.not_eq_true', decide_eq_true_eq] at closes
        refine ⟨shields_nil _, closes.1, ?_⟩
        simp [closes.2]
      · rename_i goesOn
        obtain ⟨length, inner, rfl⟩ := Option.map_eq_some_iff.mp found
        obtain ⟨shields, unescaped, closing⟩ := ih inner
        refine ⟨?_, unescaped, ?_⟩
        · apply shields_cons
          · intro quote
            simpa [quote] using goesOn
          · exact shields
        · rw [List.take_succ_cons, closing]
          rfl

theorem spelled_punctuation {kind : Kind} (marks : Kind.punctuation? first = some kind) :
    Spelled kind [first] := by
  unfold Kind.punctuation? at marks
  split at marks <;> cases marks <;> constructor

theorem sign?_of_operator? {kind : Kind} (operates : operator? afterColon first rest = some kind) :
    Kind.sign? first = some kind := by
  unfold operator? at operates
  split at operates
  · rename_i found
    split at operates
    · cases operates
    · rwa [operates] at found
  · cases operates

theorem spelled_operator {kind : Kind} (operates : operator? afterColon first rest = some kind) :
    Spelled kind [first] := by
  have signs := sign?_of_operator? operates
  unfold Kind.sign? at signs
  split at signs <;> cases signs <;> constructor

theorem spelled_ofWord {word : List Char} (nonempty : word ≠ [])
    (shields : Shields endsWord false word) : Spelled (Kind.ofWord word) word := by
  unfold Kind.ofWord
  cases keyword : Kind.keyword? word with
  | none =>
      have spelled := @Spelled.word (String.ofList word) (mt String.ofList_eq_empty_iff.mp nonempty)
      rw [String.toList_ofList] at spelled
      exact spelled shields
  | some kind =>
      unfold Kind.keyword? at keyword
      split at keyword <;> cases keyword <;> constructor

theorem spelled_head (visible : isBlank first = false) :
    Spelled (head afterColon first rest).1
      (first :: rest.take (head afterColon first rest).2) := by
  unfold head
  split
  · rename_i quote
    subst quote
    split
    · rename_i length found
      obtain ⟨shields, closes, closing⟩ := phraseLength?_eq_some found
      have spelled := @Spelled.phrase (String.ofList (rest.take length))
      rw [String.toList_ofList] at spelled
      rw [closing]
      exact spelled shields closes
    · rename_i found
      rw [List.take_length]
      exact .unterminated (phraseLength?_eq_none rest found)
  · rename_i noQuote
    split
    · rename_i kind mark
      rw [List.take_zero]
      rcases Option.or_eq_some_iff.mp mark with marks | ⟨_, operates⟩
      · exact spelled_punctuation marks
      · exact spelled_operator operates
    · rename_i noMark
      have noPunctuation : Kind.punctuation? first = none := (Option.or_eq_none_iff.mp noMark).1
      apply spelled_ofWord (List.cons_ne_nil _ _)
      apply shields_cons
      · intro ends
        simp [endsWord, isDelimiter, visible, noQuote, noPunctuation] at ends
      · simpa using shields_wordLength rest

theorem head_of_unterminated (visible : isBlank first = false)
    (opened : (head afterColon first rest).1 = .unterminated) :
    rest.drop (head afterColon first rest).2 = [] := by
  have spelled := @spelled_head afterColon first rest visible
  rw [opened] at spelled
  generalize taken : rest.take _ = more at spelled
  cases spelled
  unfold head at opened ⊢
  rw [if_pos rfl] at opened ⊢
  split at opened
  · cases opened
  · exact List.drop_length

theorem pieces_cut (afterColon : Bool) (text : List Char) : Pieces text (cut afterColon text) := by
  fun_induction cut afterColon text with
  | case1 _ text ended =>
      have whole := @List.takeWhile_append_dropWhile _ isBlank text
      rw [ended, List.append_nil] at whole
      rw [← whole]
      exact .ended List.all_takeWhile
  | case2 afterColon text gap first rest present shorter piece ih =>
      have visible : isBlank first = false := by
        have stopped := List.head?_dropWhile_not isBlank text
        rw [present] at stopped
        simpa using stopped
      have whole : text = gap ++ (first :: rest.take piece.2) ++ rest.drop piece.2 := by
        rw [List.append_assoc, List.cons_append, List.take_append_drop, ← present]
        exact List.takeWhile_append_dropWhile.symm
      conv => enter [1]; rw [whole]
      exact .piece List.all_takeWhile (spelled_head visible) (head_of_unterminated visible) ih

end Lexeme

namespace Lexeme

variable {start : Nat} {text : List Char} {lexemes : List Lexeme}

theorem le_start_placed : ∀ token ∈ placed start lexemes, start ≤ token.start := by
  induction lexemes generalizing start with
  | nil => simp [placed]
  | cons lexeme rest ih =>
      intro token present
      rw [placed, List.mem_cons] at present
      rcases present with rfl | later
      · simp
      · have bound := ih token later
        omega

theorem ordered_placed :
    (placed start lexemes).Pairwise fun earlier later => earlier.stop ≤ later.start := by
  induction lexemes generalizing start with
  | nil => exact List.Pairwise.nil
  | cons lexeme rest ih => exact List.pairwise_cons.mpr ⟨le_start_placed, ih⟩

theorem Pieces.eq_nil (pieces : Pieces [] lexemes) : lexemes = [] := by
  generalize empty : [] = text at pieces
  cases pieces with
  | ended _ => rfl
  | piece _ spelled _ _ => simp [spelled.ne_nil] at empty

theorem placed_piece (lead gap source : List Char) (kind : Kind) (lexemes : List Lexeme) :
    placed (width lead) ({ gap, kind, source } :: lexemes) =
      { kind, start := width (lead ++ gap), stop := width (lead ++ gap ++ source) } ::
        placed (width (lead ++ gap ++ source)) lexemes := by
  simp [placed, Nat.add_assoc]

theorem spelled_placed (pieces : Pieces text lexemes) (lead : List Char) :
    ∀ token ∈ placed (width lead) lexemes, ∃ piece,
      Stretch (lead ++ text) token.start token.stop piece ∧ Spelled token.kind piece := by
  induction pieces generalizing lead with
  | ended _ => simp [placed]
  | @piece gap source rest kind lexemes _ spelled _ _ ih =>
      intro token present
      rw [placed_piece, List.mem_cons] at present
      rcases present with rfl | later
      · exact ⟨source, ⟨lead ++ gap, rest, by simp, rfl, rfl⟩, spelled⟩
      · have found := ih (lead ++ gap ++ source) token later
        simpa using found

theorem between_placed (pieces : Pieces text lexemes) {lead before after : List Char} {char : Char}
    (split : lead ++ text = before ++ char :: after) (lower : width lead ≤ width before)
    (untaken : ∀ token ∈ placed (width lead) lexemes,
      width before < token.start ∨ token.stop ≤ width before) : isBlank char = true := by
  induction pieces generalizing lead with
  | @ended text blank =>
      have size := congrArg width split
      have positive := char.utf8Size_pos
      simp only [width_append, width_cons] at size
      have among : char ∈ text := by
        apply @mem_of_width lead text [] before after
        · rwa [List.append_nil]
        · exact lower
        · omega
      exact List.all_eq_true.mp blank char among
  | @piece gap source rest kind lexemes blank spelled _ _ ih =>
      rw [placed_piece, List.forall_mem_cons] at untaken
      obtain ⟨first, later⟩ := untaken
      by_cases passed : width (lead ++ gap ++ source) ≤ width before
      · exact ih (by simpa using split) passed later
      · have upper : width before < width (lead ++ gap) := first.resolve_right passed
        rw [width_append] at upper
        have among : char ∈ gap := by
          apply @mem_of_width lead gap (source ++ rest) before after
          · simpa using split
          · exact lower
          · exact upper
        exact List.all_eq_true.mp blank char among

theorem closed_placed (pieces : Pieces text lexemes) :
    ∀ token ∈ (placed start lexemes).dropLast, token.kind ≠ .unterminated := by
  induction pieces generalizing start with
  | ended _ => simp [placed]
  | @piece gap source rest kind lexemes _ _ opened pieces ih =>
      rw [placed]
      cases more : placed _ lexemes with
      | nil => simp
      | cons next later =>
          rw [List.dropLast_cons_cons, List.forall_mem_cons]
          constructor
          · intro unterminated
            rw [opened unterminated] at pieces
            rw [pieces.eq_nil, placed] at more
            cases more
          · rw [← more]
            exact ih

theorem unclosed_placed (pieces : Pieces text lexemes) (lead : List Char) :
    ∀ token ∈ placed (width lead) lexemes, token.kind = .unterminated →
      token.stop = width (lead ++ text) := by
  induction pieces generalizing lead with
  | ended _ => simp [placed]
  | @piece gap source rest kind lexemes _ _ opened _ ih =>
      intro token present unterminated
      rw [placed_piece, List.mem_cons] at present
      rcases present with rfl | later
      · rw [opened unterminated]
        simp
      · have size := ih (lead ++ gap ++ source) token later unterminated
        simpa using size

end Lexeme

/-- The tokens of a text take every character that is not blank, in order and without overlap. -/
theorem covers_ofText (text : String) : Covers text (Token.ofText text) := by
  have pieces := Lexeme.pieces_cut false text.toList
  have spelled := Lexeme.spelled_placed pieces []
  have size : text.utf8ByteSize = width text.toList := by
    rw [← utf8ByteSize_ofList, String.ofList_toList]
  constructor
  · exact spelled
  · intro token present
    obtain ⟨piece, stretch, spelledPiece⟩ := spelled token present
    exact stretch.start_lt_stop spelledPiece.ne_nil
  · intro token present
    obtain ⟨piece, stretch, _⟩ := spelled token present
    rw [size]
    exact stretch.stop_le_width
  · exact Lexeme.ordered_placed
  · intro before char after split untaken
    have split : [] ++ text.toList = before ++ char :: after := split
    exact Lexeme.between_placed pieces split (Nat.zero_le _) untaken
  · exact Lexeme.closed_placed pieces
  · rw [size]
    exact Lexeme.unclosed_placed pieces []

end ScopedFilter
