import ScopedFilter.Proofs.Expected
import ScopedFilter.Query.Walker

/-!
A walk keeps to the steps of reading: it ends where they end, with the same result, and leaves the
depth as it was. So a walker can read on after any outcome. Main statement: `read_afresh`.
-/

namespace ScopedFilter

open Reading Text

namespace Walker

variable {α : Type} {walker : Walker} {rest : List Kind} {kind : Kind}

def kinds (walker : Walker) : List Kind := (walker.tokens.drop walker.position).map Token.kind

def before (walker : Walker) (rest : List Kind) : Walker :=
  { walker with position := walker.tokens.length - rest.length }

def outcome (walker : Walker) : Reply Kind Expectation α → Except Fault α × Walker
  | .done value rest => (.ok value, walker.before rest)
  | .stuck expected rest => (.error ((walker.before rest).fault expected), walker.before rest)

theorem outcome_before (reply : Reply Kind Expectation α) :
    (walker.before rest).outcome reply = walker.outcome reply := by
  cases reply <;> rfl

theorem length_kinds : walker.kinds.length = walker.tokens.length - walker.position := by
  rw [kinds, List.length_map, List.length_drop]

theorem before_kinds (inside : walker.position ≤ walker.tokens.length) :
    walker.before walker.kinds = walker := by
  rw [before, length_kinds, Nat.sub_sub_self inside]

theorem kinds_before (suffix : rest <:+ walker.kinds) : (walker.before rest).kinds = rest := by
  rw [kinds, List.map_drop] at suffix
  have whole := suffix.trans (List.drop_suffix walker.position _)
  rw [List.suffix_iff_eq_drop, List.length_map] at whole
  rw [kinds, List.map_drop]
  exact whole.symm

theorem map_token? : walker.token?.map Token.kind = walker.kinds.head? := by
  rw [token?, kinds, List.head?_map, List.head?_drop]

end Walker

open Walker

/-- From every walker at this depth, the walk comes to what the step comes to. -/
def Walk.Follows {α : Type} (depth : Nat) (walk : Walk α) (step : KindStep α) : Prop :=
  ∀ walker : Walker, walker.depth = depth → walker.position ≤ walker.tokens.length →
    walk walker = walker.outcome (step.run walker.kinds)

namespace Walk

variable {α β : Type} {depth : Nat} {walker : Walker} {rest : List Kind} {kind : Kind}

theorem bind_kind? (next : Option Kind → Walk α) :
    (kind? >>= next) walker = next walker.kinds.head? walker := by
  rw [← map_token?]
  exact bind_ok rfl next

theorem advance_eq (ahead : walker.kinds = kind :: rest) :
    advance walker = (.ok (), walker.before rest) := by
  have present : walker.token?.map Token.kind = some kind := by rw [map_token?, ahead]; rfl
  obtain ⟨token, found, -⟩ := Option.map_eq_some_iff.mp present
  have count := congrArg List.length ahead
  rw [length_kinds, List.length_cons] at count
  simp only [advance, found, Walker.before, Prod.mk.injEq, true_and, Walker.mk.injEq, and_true]
  omega

theorem stop_eq (inside : walker.position ≤ walker.tokens.length) (ahead : walker.kinds = rest)
    (expected : List Expectation) :
    stop (α := α) expected walker = walker.outcome (.stuck expected rest) := by
  rw [Walker.outcome, ← ahead, before_kinds inside]
  rfl

theorem take_eq (ahead : walker.kinds = kind :: rest) (value : α) :
    (do advance; return value) walker = walker.outcome (.done value rest) :=
  bind_ok (advance_eq ahead) _

namespace Follows

variable {walk : Walk α} {step : KindStep α}

theorem before (follows : Follows depth walk step) (deep : walker.depth = depth)
    (suffix : rest <:+ walker.kinds) :
    walk (walker.before rest) = walker.outcome (step.run rest) := by
  have there := follows (walker.before rest) deep (Nat.sub_le _ _)
  rwa [kinds_before suffix, outcome_before] at there

theorem bind {next : α → Walk β} {nextStep : α → KindStep β} (first : Follows depth walk step)
    (later : ∀ value, Follows depth (next value) (nextStep value)) :
    Follows depth (walk >>= next) (step.bind nextStep) := by
  intro walker deep inside
  have ended := first walker deep inside
  have suffix := step.within walker.kinds
  simp only [Step.bind]
  cases reply : step.run walker.kinds with
  | done value rest =>
      rw [reply] at ended suffix
      rw [bind_ok ended]
      exact (later value).before deep suffix
  | stuck expected rest =>
      rw [reply] at ended
      exact bind_error ended next

theorem map (change : α → β) (follows : Follows depth walk step) :
    Follows depth (do return change (← walk)) (step.map change) := by
  intro walker deep inside
  have ended := follows walker deep inside
  simp only [Step.map]
  cases reply : step.run walker.kinds with
  | done value rest =>
      rw [reply] at ended
      exact bind_ok ended _
  | stuck expected rest =>
      rw [reply] at ended
      exact bind_error ended _

theorem nested (follows : Follows (depth + 1) walk step) (shallow : depth < maxNesting) :
    Follows depth (Walk.nested walk) step := by
  rintro walker rfl inside
  have ended := follows { walker with depth := walker.depth + 1 } rfl inside
  rw [Walk.nested, if_neg (Nat.not_le.mpr shallow), ended]
  rw [show Walker.kinds { walker with depth := walker.depth + 1 } = walker.kinds from rfl]
  cases step.run walker.kinds <;> rfl

end Follows

theorem past_eq {walk : Walk α} {step : KindStep α} (follows : Follows depth walk step)
    (deep : walker.depth = depth) (ahead : walker.kinds = kind :: rest) :
    (do advance; walk) walker = walker.outcome (step.run rest) := by
  have suffix : rest <:+ walker.kinds := ahead ▸ List.suffix_cons kind rest
  rw [bind_ok (advance_eq ahead)]
  exact follows.before deep suffix

theorem follows_expect (symbol : Kind) (expected : List Expectation) :
    Follows depth (expect symbol expected) (Step.expect symbol expected) := by
  intro walker deep inside
  rw [expect, bind_kind?]
  cases ahead : walker.kinds with
  | nil => exact stop_eq inside ahead expected
  | cons kind rest =>
      by_cases same : kind = symbol
      · simpa [Step.expect, same, outcome] using advance_eq ahead
      · simpa [Step.expect, same] using stop_eq inside ahead expected

def Crosses (gap : Walk Bool) (gap? : List Kind → Option Nat) : Prop :=
  ∀ walker : Walker, walker.position ≤ walker.tokens.length → gap walker =
    match gap? walker.kinds with
    | some width => (.ok true, walker.before (walker.kinds.drop width))
    | none => (.ok false, walker)

theorem operandsFrom_eq {gap : Walk Bool} {gap? : List Kind → Option Nat} {operand : Walk α}
    {step : KindStep α} (crosses : Crosses gap gap?) (follows : Follows depth operand step)
    {turns : Nat} (deep : walker.depth = depth) (inside : walker.position ≤ walker.tokens.length)
    (enough : walker.kinds.length < turns) :
    operandsFrom gap operand turns walker =
      walker.outcome (Step.operandsFrom gap? step walker.kinds) := by
  induction turns generalizing walker with
  | zero => exact absurd enough (Nat.not_lt_zero _)
  | succ turns ih =>
      have ended := follows walker deep inside
      have suffix := step.within walker.kinds
      rw [operandsFrom, Step.operandsFrom_eq]
      cases reply : step.run walker.kinds with
      | stuck expected rest =>
          rw [reply] at ended
          exact bind_error ended _
      | done first rest =>
          have shorter := step.progress reply
          rw [reply] at ended suffix
          have ahead : (walker.before rest).kinds = rest := kinds_before suffix
          have crossed := crosses (walker.before rest) (Nat.sub_le _ _)
          rw [ahead] at crossed
          rw [bind_ok ended]
          simp only
          cases found : gap? rest with
          | none =>
              rw [found] at crossed
              exact bind_ok crossed _
          | some width =>
              rw [found] at crossed
              have tail := (List.drop_suffix width rest).trans suffix
              have fewer := (List.drop_suffix width rest).length_le
              have others := @ih (walker.before (rest.drop width)) deep (Nat.sub_le _ _)
                (by rw [kinds_before tail]; omega)
              rw [kinds_before tail, outcome_before] at others
              rw [bind_ok crossed]
              simp only [if_true]
              cases more : Step.operandsFrom gap? step (rest.drop width) with
              | stuck expected left =>
                  rw [more] at others
                  exact bind_error others _
              | done values left =>
                  rw [more] at others
                  exact bind_ok others _

theorem follows_operands {gap : Walk Bool} {gap? : List Kind → Option Nat} {operand : Walk α}
    {step : KindStep α} (crosses : Crosses gap gap?) (follows : Follows depth operand step) :
    Follows depth (operands gap operand) (Step.operands gap? step) := by
  intro walker deep inside
  refine operandsFrom_eq crosses follows deep inside ?_
  rw [length_kinds]
  omega

theorem crosses_disjunctGap : Crosses disjunctGap Reading.disjunctGap? := by
  intro walker inside
  rw [disjunctGap, bind_kind?]
  cases ahead : walker.kinds with
  | nil => rfl
  | cons kind rest =>
      cases kind with
      | or => exact bind_ok (advance_eq ahead) _
      | _ => rfl

theorem crosses_conjunctGap : Crosses conjunctGap Reading.conjunctGap? := by
  intro walker inside
  rw [conjunctGap, bind_kind?]
  cases ahead : walker.kinds with
  | nil => rfl
  | cons kind rest =>
      cases kind with
      | and => exact bind_ok (advance_eq ahead) _
      | word | phrase | upTo | leftParen | not | minus | plus | bang | unterminated =>
          have stays := before_kinds inside
          rw [ahead] at stays
          exact congrArg (Prod.mk (Except.ok true)) stays.symm
      | _ => rfl

section

variable {clause : Walk Filter} {clauseStep : KindStep Filter}

theorem follows_disjunction (follows : Follows depth clause clauseStep) :
    Follows depth (disjunction clause) (Reading.disjunction clauseStep) := by
  have conjunctions : Follows depth (conjunction clause) (Reading.conjunction clauseStep) :=
    (follows_operands crosses_conjunctGap follows).map _
  exact (follows_operands crosses_disjunctGap conjunctions).map _

theorem group_eq (follows : Follows depth clause clauseStep) (deep : walker.depth = depth)
    (ahead : walker.kinds = kind :: rest) :
    group clause walker = walker.outcome ((Reading.group clauseStep).run rest) :=
  past_eq ((follows_disjunction follows).bind fun inner =>
    (follows_expect .rightParen [.rightParen]).map fun _ => Filter.group inner) deep ahead

end

theorem bound_signed {sign : String} (ahead : walker.kinds = kind :: rest)
    (signed : sign? walker = (.ok (some sign), walker.before rest)) :
    bound walker = walker.outcome (match rest with
      | .word raw :: left => .done (sign ++ unescaped raw) left
      | _ => .stuck [.rangeBound] rest) := by
  have suffix : rest <:+ walker.kinds := ahead ▸ List.suffix_cons kind rest
  have behind : (walker.before rest).kinds = rest := kinds_before suffix
  have inside : (walker.before rest).position ≤ (walker.before rest).tokens.length :=
    Nat.sub_le _ _
  rw [bound, bind_ok signed, bind_kind?, behind]
  rcases rest with _ | ⟨second, left⟩
  · exact stop_eq inside behind _
  · cases second with
    | word raw => exact take_eq behind _
    | _ => exact stop_eq inside behind _

theorem bound_unsigned (inside : walker.position ≤ walker.tokens.length)
    (ahead : walker.kinds = rest) (unsigned : sign? walker = (.ok none, walker)) :
    bound walker = walker.outcome (match rest with
      | .word raw :: left | .phrase raw :: left => .done (unescaped raw) left
      | _ => .stuck [.rangeBound] rest) := by
  rw [bound, bind_ok unsigned, bind_kind?, ahead]
  rcases rest with _ | ⟨kind, left⟩
  · exact stop_eq inside ahead _
  · cases kind with
    | word raw => exact (take_eq ahead _).trans (by rw [Option.getD_none, String.empty_append])
    | phrase raw => exact take_eq ahead _
    | _ => exact stop_eq inside ahead _

theorem follows_bound : Follows depth bound Reading.bound := by
  intro walker deep inside
  have sign : sign? walker = _ := bind_kind? _
  rw [Reading.bound, Step.run_look]
  cases ahead : walker.kinds with
  | nil =>
      rw [ahead] at sign
      rw [bound_unsigned inside ahead sign]
      rfl
  | cons kind rest =>
      rw [ahead] at sign
      cases kind with
      | minus =>
          rw [bound_signed ahead (sign.trans (take_eq ahead (some "-")))]
          rcases rest with _ | ⟨_ | _, _⟩ <;> rfl
      | plus =>
          rw [bound_signed ahead (sign.trans (take_eq ahead (some "+")))]
          rcases rest with _ | ⟨_ | _, _⟩ <;> rfl
      | _ =>
          rw [bound_unsigned inside ahead sign]
          rfl

theorem follows_rangeEnd : Follows depth rangeEnd Reading.rangeEnd := by
  intro walker deep inside
  rw [rangeEnd, bind_kind?]
  cases ahead : walker.kinds with
  | nil => exact stop_eq inside ahead _
  | cons kind rest =>
      cases kind with
      | rightBracket => exact take_eq ahead true
      | rightBrace => exact take_eq ahead false
      | _ => exact stop_eq inside ahead _

theorem range_eq (field : String) {inclusive : Bool} (deep : walker.depth = depth)
    (ahead : walker.kinds = kind :: rest)
    (opening : decide (some kind = some .leftBracket) = inclusive) :
    range field walker = walker.outcome ((Reading.range field inclusive).run rest) := by
  subst opening
  rw [range, bind_kind?, ahead]
  exact past_eq (follows_bound.bind fun low => (follows_expect .upTo [.upTo]).bind fun _ =>
    follows_bound.bind fun high => follows_rangeEnd.map fun highInclusive =>
      Filter.leaf (.range field low high ⟨some kind = some .leftBracket, highInclusive⟩)) deep ahead

theorem follows_value {clause : Walk Filter} {clauseStep : KindStep Filter} (field : String)
    (follows : Follows depth clause clauseStep) :
    Follows depth (value field clause) (Reading.value field clauseStep) := by
  intro walker deep inside
  rw [value, bind_kind?, Reading.value, Step.run_look]
  cases ahead : walker.kinds with
  | nil => exact stop_eq inside ahead _
  | cons kind rest =>
      cases kind with
      | word raw => exact take_eq ahead _
      | upTo => exact take_eq ahead _
      | phrase raw => exact take_eq ahead _
      | leftParen => exact group_eq follows deep ahead
      | leftBracket => exact range_eq field deep ahead (by decide)
      | leftBrace => exact range_eq field deep ahead (by decide)
      | _ => exact stop_eq inside ahead _

section

variable {clause : Option String → Walk Filter} {budget : Nat}

theorem primary_eq (follows : ∀ field, Follows depth (clause field) (Reading.clause budget field))
    (field : Option String) (deep : walker.depth = depth)
    (inside : walker.position ≤ walker.tokens.length)
    (unsigned : walker.kinds.head? ∉ [some .not, some .minus, some .bang, some .plus]) :
    primary clause field walker =
      walker.outcome ((Reading.clause (budget + 1) field).run walker.kinds) := by
  unfold primary
  rw [bind_kind?]
  cases ahead : walker.kinds with
  | nil => exact stop_eq inside ahead _
  | cons kind rest =>
      cases kind with
      | not | minus | bang | plus => simp [ahead] at unsigned
      | leftParen => exact group_eq (follows field) deep ahead
      | word raw =>
          have suffix : rest <:+ walker.kinds := ahead ▸ List.suffix_cons _ rest
          have behind : (walker.before rest).kinds = rest := kinds_before suffix
          refine (bind_ok (advance_eq ahead) _).trans ?_
          rw [bind_kind?, behind]
          rcases rest with _ | ⟨second, left⟩
          · rfl
          · cases second with
            | colon =>
                have level : (walker.before (.colon :: left)).depth = depth := deep
                have read := past_eq
                  (follows_value (unescaped raw) (follows (some (unescaped raw)))) level behind
                exact read.trans (outcome_before _)
            | _ => rfl
      | upTo => exact take_eq ahead _
      | phrase raw => exact take_eq ahead _
      | leftBracket | leftBrace =>
          cases field with
          | none => exact stop_eq inside ahead _
          | some name => exact range_eq name deep ahead (by decide)
      | _ => exact stop_eq inside ahead _

theorem follows_signed
    (follows : ∀ field, Follows depth (clause field) (Reading.clause budget field))
    (field : Option String) :
    Follows depth (signed clause field) (Reading.clause (budget + 1) field) := by
  intro walker deep inside
  have unsigned := primary_eq follows field deep inside
  rw [signed, bind_kind?]
  cases ahead : walker.kinds with
  | nil =>
      rw [ahead] at unsigned
      exact unsigned (by simp)
  | cons kind rest =>
      rw [ahead] at unsigned
      cases kind with
      | not | minus | bang =>
          have read := past_eq ((follows field).map Filter.not) deep ahead
          exact read
      | plus =>
          have read := past_eq (follows field) deep ahead
          exact read
      | _ => exact unsigned (by simp)

end

theorem follows_clause {budget : Nat} (field : Option String)
    (together : depth + budget = maxNesting) :
    Follows depth (clause (budget + 1) field) (Reading.clause budget field) := by
  induction budget generalizing depth field with
  | zero =>
      intro walker deep inside
      rw [clause, nested, if_pos (by omega)]
      exact stop_eq inside rfl _
  | succ budget ih =>
      rw [clause]
      exact (follows_signed (fun field => ih field (by omega)) field).nested (by omega)

end Walk

theorem Reader.read_nil : ∃ expected, ∀ endOffset : Nat,
    (Reader.mk [] endOffset).read.1 = .error ⟨endOffset, expected, none⟩ := by
  cases reply : Reading.filter.run [] with
  | done filter rest => exact absurd (Reading.filter.progress reply) (Nat.not_lt_zero _)
  | stuck expected rest =>
      have complete : Reading.complete [] = .stuck expected rest := by rw [Reading.complete, reply]
      refine ⟨expected, fun endOffset => ?_⟩
      simp [read, complete, leaving, fault]

namespace Walker

variable {walker : Walker}

theorem read_eq (level : walker.depth = 0) (inside : walker.position ≤ walker.tokens.length) :
    walker.read = walker.outcome (Reading.complete walker.kinds) := by
  have follows : Walk.Follows 0 (Walk.disjunction (Walk.clause (maxNesting + 1) none))
      Reading.filter := Walk.follows_disjunction (Walk.follows_clause none (Nat.zero_add _))
  have ended := follows walker level inside
  have suffix := Reading.filter.within walker.kinds
  rw [read, Walk.filter, Reading.complete]
  cases reply : Reading.filter.run walker.kinds with
  | stuck expected rest =>
      rw [reply] at ended
      exact Walk.bind_error ended _
  | done filter rest =>
      rw [reply] at ended suffix
      have ahead : (walker.before rest).kinds = rest := kinds_before suffix
      rw [Walk.bind_ok ended, Walk.bind_kind?, ahead]
      cases rest with
      | nil => rfl
      | cons kind rest => exact Walk.stop_eq (Nat.sub_le _ _) ahead _

def reader (walker : Walker) : Reader where
  unread := walker.tokens.drop walker.position
  endOffset := (walker.tokens.getLast?.map Token.stop).getD 0

theorem fault_reader (walker : Walker) (expected : List Expectation) :
    walker.reader.fault expected = walker.fault expected := by
  rw [fault, Reader.fault, reader, List.head?_drop, token?]
  cases walker.tokens[walker.position]? <;> rfl

theorem reader_before {rest : List Kind} (suffix : rest <:+ walker.kinds)
    (inside : walker.position ≤ walker.tokens.length) :
    (walker.before rest).reader = walker.reader.leaving rest.length := by
  have fits := suffix.length_le
  rw [length_kinds] at fits
  simp only [reader, before, Reader.leaving, List.drop_drop, List.length_drop, Reader.mk.injEq,
    and_true]
  congr 1
  omega

theorem read_reader (walker : Walker) (level : walker.depth = 0)
    (inside : walker.position ≤ walker.tokens.length) :
    walker.reader.read = (walker.read.1, walker.read.2.reader) := by
  have suffix := Reading.complete_within walker.kinds
  have left := reader_before suffix inside
  rw [read_eq level inside, Reader.read]
  rw [show walker.reader.unread.map Token.kind = walker.kinds from rfl, ← left]
  cases Reading.complete walker.kinds with
  | done filter rest => rfl
  | stuck expected rest =>
      have same := fault_reader (walker.before rest) expected
      exact congrArg (fun fault => (Except.error fault, (walker.before rest).reader)) same

theorem read_snd (level : walker.depth = 0) (inside : walker.position ≤ walker.tokens.length) :
    walker.read.2 = walker.before (Reading.complete walker.kinds).rest := by
  rw [read_eq level inside]
  cases Reading.complete walker.kinds <;> rfl

theorem position_le_read (level : walker.depth = 0)
    (inside : walker.position ≤ walker.tokens.length) :
    walker.position ≤ walker.read.2.position := by
  have fewer := (Reading.complete_within walker.kinds).length_le
  rw [length_kinds] at fewer
  rw [read_snd level inside]
  simp only [before]
  omega

structure Rests (tokens : List Token) (walker : Walker) : Prop where
  tokens : walker.tokens = tokens
  level : walker.depth = 0
  inside : walker.position ≤ walker.tokens.length

theorem Rests.read {tokens : List Token} (rests : Rests tokens walker) :
    Rests tokens walker.read.2 := by
  rw [read_snd rests.level rests.inside]
  exact ⟨rests.tokens, rests.level, Nat.sub_le _ _⟩

theorem rests_after (tokens : List Token) (readings : Nat) :
    Rests tokens ((ofTokens tokens).after readings) := by
  induction readings with
  | zero => exact ⟨rfl, rfl, Nat.zero_le _⟩
  | succ readings ih => exact ih.read

theorem reader_after (tokens : List Token) (readings : Nat) :
    ((ofTokens tokens).after readings).reader = (Reader.ofTokens tokens).after readings := by
  induction readings with
  | zero => rfl
  | succ readings ih =>
      have rests := rests_after tokens readings
      have same := congrArg Prod.snd (read_reader _ rests.level rests.inside)
      rw [after, Reader.after, ← ih, same]

/-- However many readings there were and whatever they came to, a walker is back at no depth, inside
its tokens, and reads on like a fresh one that has been given the tokens ahead. If there are none,
it places the fault where its own last token ends. -/
theorem read_afresh (tokens : List Token) (readings : Nat) :
    let walker := (ofTokens tokens).after readings
    let reader := (Reader.ofTokens tokens).after readings
    walker.depth = 0 ∧ walker.position ≤ tokens.length ∧
    walker.position ≤ walker.read.2.position ∧
    reader.unread = tokens.drop walker.position ∧ reader.read.1 = walker.read.1 ∧
    (walker.position < tokens.length →
      walker.read.1 = (ofTokens (tokens.drop walker.position)).read.1 ∧
      walker.read.1 = Filter.ofTokens (tokens.drop walker.position)) ∧
    (walker.position = tokens.length →
      ∃ fault, (ofTokens []).read.1 = .error fault ∧ Filter.ofTokens [] = .error fault ∧
        walker.read.1 =
          .error { fault with offset := (tokens.getLast?.map Token.stop).getD 0 }) := by
  intro walker reader
  have rests : Rests tokens walker := rests_after tokens readings
  have same : walker.reader = reader := reader_after tokens readings
  have read : walker.reader.read.1 = walker.read.1 :=
    congrArg Prod.fst (read_reader _ rests.level rests.inside)
  have fresh : ∀ left : List Token, Filter.ofTokens left = (ofTokens left).read.1 :=
    fun left => congrArg Prod.fst (read_reader (ofTokens left) rfl (Nat.zero_le _))
  have inside : walker.position ≤ tokens.length := rests.tokens ▸ rests.inside
  have ahead : walker.reader =
      ⟨tokens.drop walker.position, (tokens.getLast?.map Token.stop).getD 0⟩ := by
    rw [Walker.reader, rests.tokens]
  refine ⟨rests.level, inside, position_le_read rests.level rests.inside, ?_, ?_, ?_, ?_⟩
  · rw [← same, ahead]
  · rw [← same, read]
  · intro more
    have last : walker.reader = Reader.ofTokens (tokens.drop walker.position) := by
      rw [ahead, Reader.ofTokens, List.getLast?_drop, if_neg (Nat.not_le.mpr more)]
    have again : walker.read.1 = Filter.ofTokens (tokens.drop walker.position) := by
      rw [← read, last, Filter.ofTokens]
    exact ⟨again.trans (fresh _), again⟩
  · intro used
    obtain ⟨expected, fault⟩ := Reader.read_nil
    have alone : Filter.ofTokens [] = .error ⟨0, expected, none⟩ := fault 0
    refine ⟨_, (fresh []).symm.trans alone, alone, ?_⟩
    rw [← read, ahead, used, List.drop_length, fault]

end Walker

end ScopedFilter
