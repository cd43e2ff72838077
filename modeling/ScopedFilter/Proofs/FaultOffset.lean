import Mathlib
import ScopedFilter.Proofs.Expected
import ScopedFilter.Proofs.SeparateTexts
import ScopedFilter.Text.Content

/-!
Where a fault lies. Reading stops at a token and the fault lies where it starts, or reading used up
the text and the fault lies where the last token ends. Blanks behind that token are not counted, so
the fault does not always lie at the end of the text. Main statement: `parse_fault_offset`.
-/

namespace ScopedFilter

open Text

namespace Reading

/-- An open phrase among the kinds ahead is still ahead where reading ended or stopped. -/
def Spares {α : Type} (input : List Kind) (reply : Reply Kind Expectation α) : Prop :=
  .unterminated ∈ input → .unterminated ∈ reply.rest

namespace Spares

variable {α β : Type} {input rest : List Kind} {kind : Kind}

theorem past {reply : Reply Kind Expectation α} (spares : Spares input reply)
    (other : kind ≠ .unterminated) : Spares (kind :: input) reply :=
  fun present => spares ((List.mem_cons.mp present).resolve_left other.symm)

theorem here {expected : List Expectation} :
    Spares rest (.stuck expected rest : Reply Kind Expectation α) := id

theorem taken {value : α} (other : kind ≠ .unterminated) :
    Spares (kind :: rest) (.done value rest) :=
  fun present => (List.mem_cons.mp present).resolve_left other.symm

theorem map {step : KindStep α} (change : α → β) (spares : Spares input (step.run input)) :
    Spares input ((step.map change).run input) := by
  rw [Spares, Step.map, Reply.rest_map]
  exact spares

theorem bind {step : KindStep α} {next : α → KindStep β} (first : Spares input (step.run input))
    (later : ∀ value middle, Spares middle ((next value).run middle)) :
    Spares input ((step.bind next).run input) := by
  simp only [Step.bind]
  split
  · rename_i value middle read
    rw [read] at first
    exact fun present => later value middle (first present)
  · rename_i expected middle read
    rw [read] at first
    exact first

theorem expect {symbol : Kind} (other : symbol ≠ .unterminated) (expected : List Expectation) :
    Spares input ((Step.expect symbol expected).run input) := by
  cases input with
  | nil => exact here
  | cons head tail =>
      by_cases same : head = symbol
      · simpa [Step.expect, same] using taken other
      · simpa [Step.expect, same] using here

theorem operands {gap? : List Kind → Option Nat} {operand : KindStep α}
    (each : ∀ input, Spares input (operand.run input))
    (gaps : ∀ {rest gap}, gap? rest = some gap → .unterminated ∈ rest →
      .unterminated ∈ rest.drop gap)
    (input : List Kind) : Spares input ((Step.operands gap? operand).run input) := by
  have later {first : α} {unread rest middle : List Kind} {gap : Nat}
      (read : operand.run unread = .done first middle) (found : gap? middle = some gap)
      (more : .unterminated ∈ middle.drop gap → .unterminated ∈ rest)
      (present : .unterminated ∈ unread) : .unterminated ∈ rest := by
    have kept := each unread present
    rw [read] at kept
    exact more (gaps found kept)
  cases reply : (Step.operands gap? operand).run input with
  | done values rest =>
      refine Step.operandsFrom_done
        (motive := fun unread _ => .unterminated ∈ unread → .unterminated ∈ rest) ?_ later reply
      intro unread value read present
      have kept := each unread present
      rwa [read] at kept
  | stuck expected rest =>
      refine Step.operandsFrom_stuck
        (motive := fun unread => .unterminated ∈ unread → .unterminated ∈ rest) ?_ later reply
      intro unread read present
      have kept := each unread present
      rwa [read] at kept

end Spares

theorem spares_bound (input : List Kind) : Spares input (bound.run input) := by
  simp only [bound, Step.run_look]
  split
  · exact .past (.taken (by simp)) (by simp)
  · exact .past (.taken (by simp)) (by simp)
  · exact .past .here (by simp)
  · exact .past .here (by simp)
  · exact .taken (by simp)
  · exact .taken (by simp)
  · exact .here

theorem spares_rangeEnd (input : List Kind) : Spares input (rangeEnd.run input) := by
  simp only [rangeEnd, Step.run_look]
  split
  · exact .taken (by simp)
  · exact .taken (by simp)
  · exact .here

theorem spares_range (field : String) (lowInclusive : Bool) (input : List Kind) :
    Spares input ((range field lowInclusive).run input) := by
  refine .bind (spares_bound input) fun _ _ => ?_
  refine .bind (.expect (by simp) _) fun _ _ => ?_
  exact .bind (spares_bound _) fun _ _ => .map _ (spares_rangeEnd _)

theorem spares_disjunction {clause : KindStep Filter}
    (clauses : ∀ input, Spares input (clause.run input)) (input : List Kind) :
    Spares input ((disjunction clause).run input) := by
  have conjunctions (input : List Kind) : Spares input ((conjunction clause).run input) := by
    refine .map _ (.operands clauses (fun found present => ?_) input)
    unfold conjunctGap? at found
    split at found
    · cases found
      simpa using present
    · split at found
      · cases found
        exact present
      · cases found
    · cases found
  refine .map _ (.operands conjunctions (fun found present => ?_) input)
  unfold disjunctGap? at found
  split at found
  · cases found
    simpa using present
  · cases found

theorem spares_group {clause : KindStep Filter}
    (clauses : ∀ input, Spares input (clause.run input)) (input : List Kind) :
    Spares input ((group clause).run input) :=
  .bind (spares_disjunction clauses input) fun _ _ => .map _ (.expect (by simp) _)

theorem spares_value {clause : KindStep Filter}
    (clauses : ∀ input, Spares input (clause.run input)) (field : String) (input : List Kind) :
    Spares input ((value field clause).run input) := by
  simp only [value, Step.run_look]
  split
  · exact .taken (by simp)
  · exact .taken (by simp)
  · exact .taken (by simp)
  · exact .past (spares_group clauses _) (by simp)
  · exact .past (spares_range _ _ _) (by simp)
  · exact .past (spares_range _ _ _) (by simp)
  · exact .here
  · exact .here

theorem spares_clause (budget : Nat) (field : Option String) (input : List Kind) :
    Spares input ((clause budget field).run input) := by
  induction budget generalizing field input with
  | zero => exact .here
  | succ budget ih =>
      simp only [clause, Step.run_look]
      split
      · exact .past (.map _ (ih field _)) (by simp)
      · exact .past (.map _ (ih field _)) (by simp)
      · exact .past (.map _ (ih field _)) (by simp)
      · exact .past (ih field _) (by simp)
      · exact .past (spares_group (ih field) _) (by simp)
      · exact .past (.past (spares_value (ih _) _ _) (by simp)) (by simp)
      · exact .taken (by simp)
      · exact .taken (by simp)
      · exact .taken (by simp)
      · split
        · exact .past (spares_range _ _ _) (by simp)
        · exact .here
      · split
        · exact .past (spares_range _ _ _) (by simp)
        · exact .here
      · exact .here
      · exact .here

theorem spares_complete (input : List Kind) : Spares input (complete input) := by
  have whole : Spares input (filter.run input) :=
    spares_disjunction (spares_clause maxNesting none) input
  unfold complete
  split
  · rename_i read
    rwa [read] at whole
  · exact whole

end Reading

namespace Token

def lastStop (start : Nat) (tokens : List Token) : Nat :=
  (tokens.getLast?.map Token.stop).getD start

theorem lastStop_cons (start : Nat) (token : Token) (tokens : List Token) :
    lastStop start (token :: tokens) = lastStop token.stop tokens := by
  rw [lastStop, lastStop, List.getLast?_cons]
  cases tokens.getLast? <;> rfl

end Token

theorem Spelled.content_eq {kind : Kind} {source : List Char} (spelled : Spelled kind source)
    (closed : kind ≠ .unterminated) : content false source = source := by
  cases spelled with
  | word _ shields =>
      refine content_of_shields fun before char after split white => ?_
      exact shields before char after split (by simp [endsWord, white])
  | phrase _ _ =>
      rw [content_eq_self_iff]
      intro before char split white
      obtain ⟨_, same⟩ := List.append_inj' split rfl
      cases same
      exact absurd white (by decide)
  | unterminated => exact absurd rfl closed
  | _ => decide

theorem Lexeme.lastStop_cut (start : Nat) (afterColon : Bool) (text : List Char)
    (closed : .unterminated ∉ kinds afterColon text) :
    Token.lastStop start (placed start (cut afterColon text)) =
      start + width (content false text) := by
  rw [kinds] at closed
  fun_induction cut afterColon text generalizing start with
  | case1 _ text ended =>
      have blank := @List.all_takeWhile _ isBlank text
      have whole := @List.takeWhile_append_dropWhile _ isBlank text
      rw [ended, List.append_nil] at whole
      rw [whole] at blank
      rw [content_of_blank blank]
      rfl
  | case2 afterColon text gap first rest present shorter piece ih =>
      rw [List.map_cons, List.mem_cons, not_or] at closed
      have visible : isBlank first = false := by
        have stopped := List.head?_dropWhile_not isBlank text
        rw [present] at stopped
        simpa using stopped
      have source := (@spelled_head (afterColon && gap.isEmpty) first rest visible).content_eq
        (Ne.symm closed.1)
      have later : content (escapes false (first :: rest.take piece.2)) (rest.drop piece.2) =
          content false (rest.drop piece.2) := by
        rcases @escapes_head (afterColon && gap.isEmpty) first rest with ended | settled
        · rw [ended]
          rfl
        · rw [escapes, Bool.not_false, Bool.true_and, settled]
      have whole : text = gap ++ first :: (rest.take piece.2 ++ rest.drop piece.2) := by
        rw [List.take_append_drop, ← present]
        exact List.takeWhile_append_dropWhile.symm
      rw [placed, Token.lastStop_cons, ih _ closed.2]
      conv => enter [2, 2, 1, 2]; rw [whole]
      rw [content_gap List.all_takeWhile visible, ← List.cons_append, content_append source, later,
        width_append, width_append, Nat.add_assoc, Nat.add_assoc]

namespace Reader

variable {reader after : Reader} {fault : Fault}

theorem fault_of_read (failed : reader.read = (.error fault, after)) :
    fault = after.fault fault.expected ∧ after.endOffset = reader.endOffset := by
  simp only [read] at failed
  cases reply : Reading.complete (reader.unread.map Token.kind) with
  | done filter rest => simp [reply] at failed
  | stuck expected rest =>
      simp only [reply] at failed
      cases failed
      exact ⟨rfl, rfl⟩

theorem fault_at_token {token : Token} {later : List Token}
    (failed : reader.read = (.error fault, after)) (stopped : after.unread = token :: later) :
    fault.offset = token.start ∧ fault.found = some token.kind := by
  rw [(fault_of_read failed).1]
  simp [Reader.fault, stopped]

theorem closed_of_read {tokens : List Token}
    (failed : (ofTokens tokens).read = (.error fault, after)) (ended : after.unread = []) :
    .unterminated ∉ tokens.map Token.kind := by
  obtain ⟨_, _, stuck⟩ := stuck_of_read failed
  intro present
  have ahead := Reading.spares_complete _ present
  rw [stuck, ended] at ahead
  simp [Reply.rest] at ahead

theorem fault_at_end {text : String}
    (failed : (ofTokens (Token.ofText text)).read = (.error fault, after))
    (ended : after.unread = []) : fault.offset = width (content false text.toList) := by
  have closed := closed_of_read failed ended
  rw [Lexeme.map_kind_ofText] at closed
  obtain ⟨same, offset⟩ := fault_of_read failed
  have stop := Lexeme.lastStop_cut 0 false text.toList closed
  rw [Nat.zero_add] at stop
  rw [same, ← stop]
  simp only [Reader.fault, ended, offset]
  rfl

end Reader

theorem Text.width_content_eq_iff (text : String) :
    width (content false text.toList) = text.utf8ByteSize ↔
      ∀ lead char, text.toList = lead ++ [char] → isBlank char = true →
        escapes false lead = true := by
  have size : text.utf8ByteSize = width text.toList := by
    rw [← utf8ByteSize_ofList, String.ofList_toList]
  obtain ⟨blanks, split, _⟩ := exists_blanks false text.toList
  have total := congrArg width split
  rw [width_append] at total
  rw [size, ← content_eq_self_iff]
  constructor
  · intro same
    have none : blanks = [] := by
      refine Decidable.byContradiction fun some => ?_
      obtain ⟨first, rest, rfl⟩ := List.exists_cons_of_ne_nil some
      have positive := first.utf8Size_pos
      rw [width_cons] at total
      omega
    rw [none, List.append_nil] at split
    exact split.symm
  · intro whole
    rw [whole]

/-- A fault lies where a token starts that could not be read. If all were read, it lies at the end
of the text just if the text ends in no blank, or in one that is escaped. -/
theorem Filter.parse_fault_offset {text : String} {fault : Fault}
    (failed : Filter.parse text = .error fault) :
    ∃ before unread, Token.ofText text = before ++ unread ∧
      unread = (Reader.ofTokens (Token.ofText text)).read.2.unread ∧
      (∀ token later, unread = token :: later →
        fault.offset = token.start ∧
          (∃ lead char rest, text.toList = lead ++ char :: rest ∧ width lead = fault.offset) ∧
          fault.message = "期望 " ++ " 或 ".intercalate (fault.expected.map Expectation.label)
            ++ "，实际遇到 " ++ token.kind.describe ++ "（位置 " ++ toString token.start ++ "）") ∧
      (unread = [] →
        fault.offset = width (content false text.toList) ∧
          (fault.offset = text.utf8ByteSize ↔ ∀ lead char, text.toList = lead ++ [char] →
            isBlank char = true → escapes false lead = true)) := by
  have stopped : (Reader.ofTokens (Token.ofText text)).read =
      (.error fault, (Reader.ofTokens (Token.ofText text)).read.2) := by
    rw [← failed]
    rfl
  generalize (Reader.ofTokens (Token.ofText text)).read.2 = after at stopped ⊢
  obtain ⟨before, split, _⟩ := Reader.stuck_of_read stopped
  refine ⟨before, after.unread, split, rfl, fun token later ahead => ?_, fun ended => ?_⟩
  · obtain ⟨offset, found⟩ := Reader.fault_at_token stopped ahead
    have present : token ∈ Token.ofText text := by
      rw [split, ahead]
      simp
    obtain ⟨piece, ⟨lead, rest, whole, start, _⟩, spelled⟩ :=
      (covers_ofText text).spelled token present
    obtain ⟨char, more, rfl⟩ := List.exists_cons_of_ne_nil spelled.ne_nil
    refine ⟨offset, ⟨lead, char, more ++ rest, ?_, ?_⟩, ?_⟩
    · rw [whole, List.append_assoc, List.cons_append]
    · rw [offset, start]
    · rw [Fault.message, Fault.foundText, found, offset]
  · have offset := Reader.fault_at_end stopped ended
    exact ⟨offset, by rw [offset, width_content_eq_iff]⟩

theorem Filter.parse_fault_offset_escaped :
    let text := "é:[1 TO \\ "
    let fault : Fault := ⟨11, [.rightBracket, .rightBrace], Option.none⟩
    Filter.parse text = .error fault ∧
      (Reader.ofTokens (Token.ofText text)).read.2.unread = [] ∧
      fault.offset = text.utf8ByteSize := by
  intro text fault
  have failed : Filter.parse text = .error fault := by cbv
  have ended : (Reader.ofTokens (Token.ofText text)).read.2.unread = [] := by cbv
  obtain ⟨_, _, _, rfl, _, atEnd⟩ := parse_fault_offset failed
  refine ⟨failed, ended, (atEnd ended).2.mpr fun lead char split _ => ?_⟩
  have whole : text.toList = "é:[1 TO \\".toList ++ [' '] := by decide
  rw [← (List.append_inj' (whole.symm.trans split) rfl).1]
  decide

theorem Filter.fault_before_blank :
    Filter.parse "a AND " = .error ⟨5, [.term], Option.none⟩ ∧
      (Reader.ofTokens (Token.ofText "a AND ")).read.2.unread = [] ∧
      "a AND ".utf8ByteSize = 6 := by
  refine ⟨?_, ?_, ?_⟩
  · cbv
  · cbv
  · rfl

end ScopedFilter
