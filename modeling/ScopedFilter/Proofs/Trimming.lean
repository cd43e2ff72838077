import Mathlib
import ScopedFilter.Proofs.ParsedFilter
import ScopedFilter.Proofs.Rewording
import ScopedFilter.Proofs.Separable
import ScopedFilter.Proofs.SeparateTexts
import ScopedFilter.Text.Content

/-!
Blanks around a text. They are of no consequence, with one exception: a backslash at the end of
what is left without them escapes the blank after it, which then belongs to the last word. Main
statement: `run_trimmed`.
-/

namespace ScopedFilter

open Grammar Text

namespace Text

/-- The blanks at the end of the text start with one that is escaped. -/
def EndsEscaped (text : List Char) : Prop :=
  ∃ body blanks, text = body ++ blanks ∧ blanks ≠ [] ∧ blanks.all isBlank = true ∧
    escapes false body = true

theorem EndsEscaped.getLast?_content {text : List Char} (ends : EndsEscaped text) :
    ∃ blank ∈ (content false text).getLast?, isBlank blank = true := by
  obtain ⟨body, blanks, rfl, some, blank, escaping⟩ := ends
  obtain ⟨first, more, rfl⟩ := List.exists_cons_of_ne_nil some
  rw [List.all_cons, Bool.and_eq_true] at blank
  have whole : content false body = body := by
    rw [content_eq_self_iff]
    rintro before char rfl white
    rw [escapes_append] at escaping
    simp [escapes, ne_backslash_of_isBlank white] at escaping
  rw [content_append whole, escaping, content]
  simp [content_of_blank blank.2, blank.1]

theorem exists_trimmed (text : List Char) :
    ∃ lead blanks, text = lead ++ trimmed text ++ blanks ∧ lead.all isBlank = true ∧
      blanks.all isBlank = true := by
  refine ⟨text.takeWhile isBlank, ((text.dropWhile isBlank).reverse.takeWhile isBlank).reverse,
    ?_, List.all_takeWhile, ?_⟩
  · rw [trimmed, List.append_assoc, ← List.reverse_append, List.takeWhile_append_dropWhile,
      List.reverse_reverse, List.takeWhile_append_dropWhile]
  · rw [List.all_reverse]
    exact List.all_takeWhile

end Text

namespace Lexeme

variable {escaped afterColon : Bool} {first blank : Char} {rest text blanks more : List Char}

theorem kinds_append_of_blank (blank : blanks.all isBlank = true) (text : List Char) :
    kinds false (blanks ++ text) = kinds false text := by
  induction blanks with
  | nil => rfl
  | cons char blanks ih =>
      rw [List.all_cons, Bool.and_eq_true] at blank
      rw [List.cons_append, kinds_blank blank.1, ih blank.2]

theorem kinds_of_blank (blank : blanks.all isBlank = true) : kinds afterColon blanks = [] := by
  refine kinds_of_ended (List.dropWhile_eq_nil_iff.mpr ?_)
  simpa using blank

theorem wordLength_append_of_lt (inside : wordLength escaped text < text.length)
    (more : List Char) : wordLength escaped (text ++ more) = wordLength escaped text := by
  induction text generalizing escaped with
  | nil => exact absurd inside (Nat.lt_irrefl 0)
  | cons char text ih =>
      rw [List.cons_append, wordLength, wordLength]
      rw [wordLength] at inside
      split
      · rfl
      · rename_i goesOn
        rw [if_neg goesOn] at inside
        rw [ih (Nat.lt_of_succ_lt_succ inside)]

theorem head_append (inside : (head afterColon first rest).2 < rest.length) (more : List Char) :
    head afterColon first (rest ++ more) = head afterColon first rest := by
  unfold head at inside ⊢
  split
  · rename_i quote
    rw [if_pos quote] at inside
    cases found : phraseLength? false rest with
    | none => simp [found] at inside
    | some length =>
        have within := Nat.le_of_lt (phraseLength?_lt found)
        simp only [phraseLength?_append found, List.take_append_of_le_length within]
  · rename_i noQuote
    rw [if_neg noQuote] at inside
    have same : operator? afterColon first (rest ++ more) = operator? afterColon first rest := by
      cases rest with
      | nil => exact absurd inside (Nat.not_lt_zero _)
      | cons next rest =>
          unfold operator?
          cases Kind.sign? first <;> rfl
    rw [same]
    split
    · rfl
    · rename_i noMark
      simp only [noMark] at inside
      have within := @wordLength_le (first = '\\') rest
      simp only [wordLength_append_of_lt inside, List.take_append_of_le_length within]

theorem phraseLength?_append_blanks (blank : blanks.all isBlank = true)
    (opened : phraseLength? escaped text = none) :
    phraseLength? escaped (text ++ blanks) = none := by
  induction text generalizing escaped with
  | nil =>
      rw [List.nil_append]
      clear opened
      induction blanks generalizing escaped with
      | nil => rfl
      | cons char blanks ih =>
          rw [List.all_cons, Bool.and_eq_true] at blank
          have other : char ≠ '"' := by
            rintro rfl
            exact absurd blank.1 (by decide)
          simp [phraseLength?, other, ih blank.2]
  | cons char text ih =>
      rw [phraseLength?] at opened
      rw [List.cons_append, phraseLength?]
      split at opened
      · cases opened
      · rename_i goesOn
        rw [if_neg goesOn, ih (by simpa using opened)]
        rfl

theorem head_append_of_unterminated (visible : isBlank first = false)
    (blank : blanks.all isBlank = true)
    (opened : (head afterColon first rest).1 = .unterminated) :
    (head afterColon first (rest ++ blanks)).1 = .unterminated := by
  have spelled := @spelled_head afterColon first rest visible
  rw [opened] at spelled
  generalize rest.take _ = more at spelled
  cases spelled
  unfold head at opened ⊢
  rw [if_pos rfl] at opened ⊢
  split at opened
  · cases opened
  · rename_i noEnd
    rw [phraseLength?_append_blanks blank noEnd]

theorem unterminated_append_blanks (blank : blanks.all isBlank = true) (text : List Char)
    (opened : .unterminated ∈ kinds afterColon text) :
    .unterminated ∈ kinds afterColon (text ++ blanks) := by
  induction afterColon, text using piece_induction with
  | nil => simp at opened
  | blank passed ih =>
      rw [kinds_blank passed] at opened
      rw [List.cons_append, kinds_blank passed]
      exact ih opened
  | @visible afterColon first rest seen ih =>
      rw [List.cons_append]
      simp only [kinds_cons seen, List.mem_cons] at opened ⊢
      rcases opened with here | later
      · exact .inl (head_append_of_unterminated seen blank here.symm).symm
      · have inside : (head afterColon first rest).2 < rest.length := by
          refine Nat.lt_of_not_le fun whole => ?_
          simp [List.drop_eq_nil_of_le whole] at later
        rw [head_append inside, List.drop_append_of_le_length (Nat.le_of_lt inside)]
        exact .inr (ih later)

theorem not_isBlank_of_keyword {word : List Char} (keyword : Kind.keyword? word ≠ none) :
    escapes false word = false ∧ word.all (!isBlank ·) = true := by
  unfold Kind.keyword? at keyword
  split at keyword <;> first | decide | exact absurd rfl keyword

theorem ofWord_of_not_keyword {word : List Char} (ordinary : Kind.keyword? word = none) :
    Kind.ofWord word = .word (String.ofList word) := by
  rw [Kind.ofWord, ordinary]
  rfl

theorem wordLength_append_escaped (white : isBlank blank = true) (edge : AtEdge more)
    (text : List Char) (whole : wordLength escaped text = text.length)
    (escaping : escapes escaped text = true) :
    wordLength escaped (text ++ blank :: more) = text.length + 1 := by
  induction text generalizing escaped with
  | nil =>
      have settled : (blank = '\\') = False := eq_false (ne_backslash_of_isBlank white)
      rw [escapes] at escaping
      simp [escaping, wordLength, settled, wordLength_of_atEdge edge]
  | cons char text ih =>
      rw [wordLength] at whole
      rw [List.cons_append, wordLength]
      split at whole
      · cases whole
      · rename_i goesOn
        rw [if_neg goesOn, ih (Nat.succ_inj.mp whole) escaping, List.length_cons]

theorem head_of_escaping (white : isBlank blank = true) (edge : AtEdge more)
    (escaping : escapes (first = '\\') rest = true)
    (closed : (head afterColon first rest).1 ≠ .unterminated)
    (whole : rest.length ≤ (head afterColon first rest).2) :
    head afterColon first rest = (.word (String.ofList (first :: rest)), rest.length) ∧
      head afterColon first (rest ++ blank :: more) =
        (.word (String.ofList (first :: rest ++ [blank])), rest.length + 1) := by
  have noQuote : first ≠ '"' := by
    rintro rfl
    rw [head, if_pos rfl] at closed whole
    cases found : phraseLength? false rest with
    | none => simp [found] at closed
    | some length =>
        obtain ⟨_, _, closing⟩ := phraseLength?_eq_some found
        simp only [found] at whole
        rw [List.take_of_length_le whole] at closing
        rw [closing, escapes_of_ne (by decide)] at escaping
        cases escaping
  have noMark : (Kind.punctuation? first).or (operator? afterColon first rest) = none := by
    rw [head, if_neg noQuote] at whole
    cases mark : (Kind.punctuation? first).or (operator? afterColon first rest) with
    | none => rfl
    | some kind =>
        simp only [mark, Nat.le_zero, List.length_eq_zero_iff] at whole
        subst whole
        rw [escapes, decide_eq_true_eq] at escaping
        subst escaping
        simp [Kind.punctuation?, operator?, Kind.sign?] at mark
  have reach : wordLength (first = '\\') rest = rest.length := by
    simp only [head, if_neg noQuote, noMark] at whole
    exact Nat.le_antisymm (wordLength_le rest) whole
  have ordinary : Kind.keyword? (first :: rest) = none := by
    by_contra keyword
    have settled := (not_isBlank_of_keyword keyword).1
    rw [escapes, Bool.not_false, Bool.true_and, escaping] at settled
    cases settled
  have longer : Kind.keyword? (first :: rest ++ [blank]) = none := by
    by_contra keyword
    have visible := (not_isBlank_of_keyword keyword).2
    simp [white] at visible
  have last : (rest ++ blank :: more).take (rest.length + 1) = rest ++ [blank] := by
    rw [List.append_cons]
    exact List.take_left' (by simp)
  constructor
  · simp only [head, if_neg noQuote, noMark, reach, List.take_length,
      ofWord_of_not_keyword ordinary]
  · simp only [head, if_neg noQuote, operator?_append_blank white, noMark,
      wordLength_append_escaped white edge rest reach escaping, last, ← List.cons_append,
      ofWord_of_not_keyword longer]

theorem atEdge_of_blank (blank : blanks.all isBlank = true) : AtEdge blanks := by
  cases blanks with
  | nil => exact atEdge_nil
  | cons char blanks =>
      rw [List.all_cons, Bool.and_eq_true] at blank
      exact atEdge_cons (by simp [endsWord, blank.1])

theorem kinds_append_escaped (white : isBlank blank = true) (blanks : more.all isBlank = true)
    (text : List Char) (escaping : escapes false text = true)
    (closed : .unterminated ∉ kinds afterColon text) :
    ∃ front word, escapes false word = true ∧
      kinds afterColon text = front ++ [.word (String.ofList word)] ∧
      kinds afterColon (text ++ blank :: more) =
        front ++ [.word (String.ofList (word ++ [blank]))] := by
  induction afterColon, text using piece_induction with
  | nil => cases escaping
  | blank passed ih =>
      rw [kinds_blank passed] at closed
      rw [List.cons_append, kinds_blank passed, kinds_blank passed]
      exact ih (by simpa [escapes, ne_backslash_of_isBlank passed] using escaping) closed
  | @visible afterColon first rest seen ih =>
      rw [escapes, Bool.not_false, Bool.true_and] at escaping
      rw [List.cons_append]
      simp only [kinds_cons seen, List.mem_cons, not_or] at closed ⊢
      by_cases inside : (head afterColon first rest).2 < rest.length
      · have settled : escapes false (rest.drop (head afterColon first rest).2) = true := by
          rcases @escapes_head afterColon first rest with ended | settled
          · rw [List.drop_eq_nil_iff] at ended
            omega
          · rwa [← List.take_append_drop (head afterColon first rest).2 rest,
              escapes_append, settled] at escaping
        obtain ⟨front, word, last, split, longer⟩ := ih settled closed.2
        refine ⟨_ :: front, word, last, congrArg _ split, ?_⟩
        rw [head_append inside, List.drop_append_of_le_length (Nat.le_of_lt inside), longer]
        rfl
      · obtain ⟨alone, longer⟩ := head_of_escaping white (atEdge_of_blank blanks) escaping
          (Ne.symm closed.1) (Nat.le_of_not_lt inside)
        refine ⟨[], first :: rest, by simpa [escapes] using escaping, ?_, ?_⟩
        · simp [alone]
        · have after : (rest ++ blank :: more).drop (rest.length + 1) = more := by
            rw [List.append_cons]
            exact List.drop_left' (by simp)
          rw [longer, after, kinds_of_blank blanks]
          rfl

end Lexeme

namespace Grammar

theorem exists_comparison_iff {field : String} {raw : List Char} :
    (∃ leaf, Comparison field raw leaf) ↔
      ∃ sign rest, raw = sign :: rest ∧ (sign = '>' ∨ sign = '<') ∧ rest ≠ [] ∧ rest ≠ ['='] := by
  constructor
  · rintro ⟨_, compared⟩
    cases compared with
    | atLeast some => exact ⟨_, _, rfl, .inl rfl, by simp, by simpa using some⟩
    | atMost some => exact ⟨_, _, rfl, .inr rfl, by simp, by simpa using some⟩
    | above some noEqual =>
        refine ⟨_, _, rfl, .inl rfl, some, ?_⟩
        rintro rfl
        exact noEqual rfl
    | below some noEqual =>
        refine ⟨_, _, rfl, .inr rfl, some, ?_⟩
        rintro rfl
        exact noEqual rfl
  · rintro ⟨sign, rest, rfl, side, some, more⟩
    obtain ⟨first, rest, rfl⟩ := List.exists_cons_of_ne_nil some
    by_cases equal : first = '='
    · subst equal
      have bound : rest ≠ [] := by simpa using more
      rcases side with rfl | rfl
      · exact ⟨_, .atLeast bound (unescapes_ofList rest)⟩
      · exact ⟨_, .atMost bound (unescapes_ofList rest)⟩
    · have noEqual : (first :: rest).head? ≠ Option.some '=' := by simpa using equal
      rcases side with rfl | rfl
      · exact ⟨_, .above some noEqual (unescapes_ofList _)⟩
      · exact ⟨_, .below some noEqual (unescapes_ofList _)⟩

theorem sameForm_of_escaping {word : List Char} (escaping : escapes false word = true)
    (blank : Char) : SameForm (String.ofList word) (String.ofList (word ++ [blank])) := by
  obtain ⟨first, rest, rfl⟩ : ∃ first rest, word = first :: rest := by
    refine List.exists_cons_of_ne_nil ?_
    rintro rfl
    cases escaping
  constructor
  · rw [← String.toList_inj, ← String.toList_inj, String.toList_ofList, String.toList_ofList]
    constructor
    · intro star
      rw [star] at escaping
      cases escaping
    · intro star
      simp at star
  · intro field
    rw [exists_comparison_iff, exists_comparison_iff, String.toList_ofList, String.toList_ofList]
    constructor
    · rintro ⟨sign, bound, split, side, some, _⟩
      obtain ⟨rfl, rfl⟩ := List.cons.inj split
      refine ⟨_, _, rfl, side, by simp, fun single => some ?_⟩
      simpa using congrArg List.dropLast single
    · rintro ⟨sign, bound, split, side, _, _⟩
      obtain ⟨rfl, rfl⟩ := List.cons.inj split
      refine ⟨_, _, rfl, side, ?_, ?_⟩
      · rintro rfl
        rcases side with rfl | rfl <;> cases escaping
      · rintro rfl
        rcases side with rfl | rfl <;> cases escaping

end Grammar

namespace Lexeme

theorem reworded_trimmed (text : List Char) :
    (.unterminated ∈ kinds false text ∧ .unterminated ∈ kinds false (trimmed text)) ∨
      Reworded (kinds false text) (kinds false (trimmed text)) ∧
        Reworded (kinds false (trimmed text)) (kinds false text) ∧
        (¬EndsEscaped text → kinds false text = kinds false (trimmed text)) := by
  obtain ⟨lead, blanks, split, blankLead, blank⟩ := exists_trimmed text
  generalize trimmed text = body at split ⊢
  subst split
  rw [List.append_assoc, kinds_append_of_blank blankLead]
  by_cases opened : .unterminated ∈ kinds false body
  · exact .inl ⟨unterminated_append_blanks blank body opened, opened⟩
  right
  cases blanks with
  | nil =>
      rw [List.append_nil]
      exact ⟨.refl _, .refl _, fun _ => rfl⟩
  | cons char more =>
      have blanks := blank
      rw [List.all_cons, Bool.and_eq_true] at blanks
      cases escaping : escapes false body with
      | false =>
          rw [kinds_append_blank blanks.1 body escaping opened, kinds_of_blank blank,
            List.append_nil]
          exact ⟨.refl _, .refl _, fun _ => rfl⟩
      | true =>
          obtain ⟨front, word, last, short, long⟩ :=
            kinds_append_escaped blanks.1 blanks.2 body escaping opened
          have same := sameForm_of_escaping last char
          rw [short, long]
          refine ⟨.append front (.word same.symm (by simp) .nil),
            .append front (.word same (by simp) .nil), fun settled => absurd ?_ settled⟩
          refine ⟨lead ++ body, _, (List.append_assoc _ _ _).symm, by simp, blank, ?_⟩
          rw [escapes_append, escapes_of_blank blankLead, escaping]

end Lexeme

namespace Filter

theorem parse_reworded {text other : String} {filter : Filter}
    (reworded : Reworded (Lexeme.kinds false text.toList) (Lexeme.kinds false other.toList))
    (parsed : Filter.parse text = .ok filter) :
    ∃ changed, Filter.parse other = .ok changed ∧ filter.Alike Leaf.SameField changed := by
  obtain ⟨members, derived, rfl⟩ := parse_eq_ok_iff.mp parsed
  obtain ⟨_, left, found, _ | _ | ⟨alike⟩, ended⟩ := derives_reworded derived reworded
  cases ended
  exact ⟨_, parse_eq_ok_iff.mpr ⟨_, found, rfl⟩, .joined .or .none alike⟩

theorem not_unterminated_of_parse {text : String} {filter : Filter}
    (parsed : Filter.parse text = .ok filter) :
    .unterminated ∉ Lexeme.kinds false text.toList := by
  obtain ⟨members, derived, rfl⟩ := parse_eq_ok_iff.mp parsed
  exact fun opened => by simpa using unterminated_of_derives derived opened

theorem parse_trimmed {text inner : String} (same : inner.toList = trimmed text.toList) :
    ((∃ filter, Filter.parse text = .ok filter) ↔ ∃ filter, Filter.parse inner = .ok filter) ∧
      ∀ filter other, Filter.parse text = .ok filter → Filter.parse inner = .ok other →
        filter.Alike Leaf.SameField other ∧ (¬EndsEscaped text.toList → filter = other) := by
  have reworded := Lexeme.reworded_trimmed text.toList
  rw [← same] at reworded
  rcases reworded with ⟨opened, stillOpened⟩ | ⟨there, back, unescaped⟩
  · have fails {filter : Filter} : Filter.parse text ≠ .ok filter :=
      fun parsed => not_unterminated_of_parse parsed opened
    have stillFails {filter : Filter} : Filter.parse inner ≠ .ok filter :=
      fun parsed => not_unterminated_of_parse parsed stillOpened
    exact ⟨by simp [fails, stillFails], fun _ _ parsed => absurd parsed fails⟩
  · refine ⟨⟨?_, ?_⟩, fun filter other parsed read => ?_⟩
    · rintro ⟨filter, parsed⟩
      obtain ⟨changed, read, _⟩ := parse_reworded there parsed
      exact ⟨changed, read⟩
    · rintro ⟨filter, parsed⟩
      obtain ⟨changed, read, _⟩ := parse_reworded back parsed
      exact ⟨changed, read⟩
    · obtain ⟨changed, again, alike⟩ := parse_reworded there parsed
      rw [read, Except.ok.injEq] at again
      subst again
      refine ⟨alike, fun settled => ?_⟩
      rw [parse_eq_ok_iff, unescaped settled, ← parse_eq_ok_iff, read] at parsed
      exact (Except.ok.inj parsed).symm

end Filter

namespace Engine

/-- With the aliases published, a text is answered as it is without the blanks around it. Where a
backslash keeps the first of the blanks at its end, the query may be another one, but not whether
there is an answer and whether it is invertible. -/
theorem run_trimmed {registry : Registry} {context : Context} {aliases : Aliases}
    (published : (registry.family context).published? = some aliases) (sentinels : Sentinels)
    (text : String) (mode : Mode) :
    let engine : Engine := { fields := { table := context.table, aliases }, sentinels }
    let inner := String.ofList (trimmed text.toList)
    (sentinels = .standard → ∀ line,
        registry.run context line mode = (engine.run line mode, registry)) ∧
      ((∃ answer, engine.run text mode = .ok answer) ↔
        ∃ answer, engine.run inner mode = .ok answer) ∧
      ∀ answer other, engine.run text mode = .ok answer → engine.run inner mode = .ok other →
        answer.invertible = other.invertible ∧ (¬EndsEscaped text.toList → answer = other) := by
  intro engine inner
  obtain ⟨reads, relates⟩ := @Filter.parse_trimmed text inner (by simp [inner])
  simp only [run_eq_ok_iff]
  refine ⟨?_, ?_, ?_⟩
  · rintro rfl line
    exact Registry.run_of_published published line mode
  · constructor
    · rintro ⟨_, filter, parsed, _⟩
      obtain ⟨other, read⟩ := reads.mp ⟨filter, parsed⟩
      exact ⟨_, other, read, rfl⟩
    · rintro ⟨_, filter, parsed, _⟩
      obtain ⟨other, read⟩ := reads.mpr ⟨filter, parsed⟩
      exact ⟨_, other, read, rfl⟩
  · rintro _ _ ⟨filter, parsed, rfl⟩ ⟨other, read, rfl⟩
    obtain ⟨alike, same⟩ := relates filter other parsed read
    refine ⟨Filter.isSome_complement?_eq_of_alike (fun left right known => ?_) alike,
      fun settled => by rw [same settled]⟩
    rw [Fields.isTenant, Fields.isTenant, show left.field? = right.field? from known]

theorem run_trimmed_backslash :
    let registry : Registry := ⟨[Family.ofAliases [("org", "organization")]]⟩
    let context : Context := ⟨Table.standard, 0⟩
    let text := "\u3000 org:o1 title:x\\\\\u2003 "
    ¬EndsEscaped text.toList ∧ ∃ answer,
      registry.run context text .excluded = (.ok answer, registry) ∧
        registry.run context "org:o1 title:x\\\\" .excluded = (.ok answer, registry) := by
  intro registry context text
  have published : (registry.family context).published? = some [("org", "organization")] := rfl
  have settled : ¬EndsEscaped text.toList := by
    intro ends
    obtain ⟨blank, last, white⟩ := ends.getLast?_content
    have backslash : (content false text.toList).getLast? = some '\\' := by decide
    rw [backslash] at last
    cases last
    cases white
  have inner : String.ofList (trimmed text.toList) = "org:o1 title:x\\\\" := by decide
  obtain ⟨served, succeeds, same⟩ := run_trimmed published .standard text .excluded
  obtain ⟨other, read⟩ : ∃ answer, Engine.run ⟨⟨Table.standard, [("org", "organization")]⟩,
      .standard⟩ "org:o1 title:x\\\\" .excluded = .ok answer := ⟨_, by cbv⟩
  rw [inner] at succeeds same
  obtain ⟨answer, answered⟩ := succeeds.mpr ⟨other, read⟩
  obtain rfl := (same answer other answered read).2 settled
  exact ⟨settled, answer, by rw [served rfl, answered], by rw [served rfl, read]⟩

theorem run_untrimmed_escaped :
    let text := "status:open\\ "
    let inner := String.ofList (trimmed text.toList)
    ∃ answer other, standard.run text .candidates = .ok answer ∧
      standard.run inner .candidates = .ok other ∧
      answer.query = "status:open\\ " ∧ other.query = "status:open" := by
  intro text inner
  exact ⟨⟨_, true, .candidates⟩, ⟨_, true, .candidates⟩, by cbv, by cbv, rfl, rfl⟩

end Engine

end ScopedFilter
