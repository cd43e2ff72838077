import ScopedFilter.Filter.Basic
import ScopedFilter.Query.Lexeme
import ScopedFilter.Step

/-!
Reading a filter from kinds. Disjunctions hold conjunctions, conjunctions hold clauses, and a
clause is a sign in front of a clause, a group in parentheses, or a test. A field before a colon
covers the test or the whole group after it. The nesting of clauses is bounded by a budget. A reader
walks over the tokens of a query. It stays where a filter ended or reading stopped, and can be asked
again from there. `Filter.parse` reads one filter from a whole text.
-/

namespace ScopedFilter

namespace Reading

open Text

abbrev KindStep := Step Kind Expectation

def maxNesting : Nat := 128

def unbounded : String := "*"

/-- Kinds that start a clause, so that a conjunction goes on without the word between. An open
phrase is among them: it is to be reported as such. -/
def startsClause : Kind → Bool
  | .word _ | .phrase _ | .upTo | .leftParen | .not | .minus | .plus | .bang | .unterminated => true
  | _ => false

def conjunctGap? : List Kind → Option Nat
  | .and :: _ => some 1
  | kind :: _ => if startsClause kind then some 0 else none
  | [] => none

def disjunctGap? : List Kind → Option Nat
  | .or :: _ => some 1
  | _ => none

def conjunction (clause : KindStep Filter) : KindStep Filter :=
  (Step.operands conjunctGap? clause).map (Filter.joined .and .all)

def disjunction (clause : KindStep Filter) : KindStep Filter :=
  (Step.operands disjunctGap? (conjunction clause)).map (Filter.joined .or .none)

def group (clause : KindStep Filter) : KindStep Filter :=
  (disjunction clause).bind fun inner =>
    (Step.expect .rightParen [.rightParen]).map fun _ => .group inner

/-- A sign in front of a bound belongs to it, but only in front of a word. -/
def bound : KindStep String :=
  .look fun
    | .minus :: .word raw :: _ => .past (.take ("-" ++ unescaped raw))
    | .plus :: .word raw :: _ => .past (.take ("+" ++ unescaped raw))
    | .minus :: _ | .plus :: _ => .past (.fail [.rangeBound])
    | .word raw :: _ | .phrase raw :: _ => .take (unescaped raw)
    | _ => .fail [.rangeBound]

def rangeEnd : KindStep Bool :=
  .look fun
    | .rightBracket :: _ => .take true
    | .rightBrace :: _ => .take false
    | _ => .fail [.rightBracket, .rightBrace]

def range (field : String) (lowInclusive : Bool) : KindStep Filter :=
  bound.bind fun low =>
    (Step.expect .upTo [.upTo]).bind fun _ =>
      bound.bind fun high =>
        rangeEnd.map fun highInclusive =>
          .leaf (.range field low high ⟨lowInclusive, highInclusive⟩)

def comparison? (field : String) (raw : List Char) : Option Leaf :=
  match raw with
  | '>' :: '=' :: first :: rest => some (atLeast .both (first :: rest))
  | ['>', '='] => none
  | '<' :: '=' :: first :: rest => some (atMost .both (first :: rest))
  | ['<', '='] => none
  | '>' :: first :: rest => some (atLeast .neither (first :: rest))
  | '<' :: first :: rest => some (atMost .neither (first :: rest))
  | _ => none
where
  value (rest : List Char) : String := String.ofList (plain false rest)
  atLeast (inclusive : Inclusivity) (rest : List Char) : Leaf :=
    .range field (value rest) unbounded { inclusive with high := true }
  atMost (inclusive : Inclusivity) (rest : List Char) : Leaf :=
    .range field unbounded (value rest) { inclusive with low := true }

def wordValue (field raw : String) : Filter :=
  if field = "*" ∧ raw = "*" then .all
  else .leaf ((comparison? field raw.toList).getD (.term (some field) (unescaped raw)))

/-- What follows a field and its colon; `clause` reads the clauses of a group on that field. -/
def value (field : String) (clause : KindStep Filter) : KindStep Filter :=
  .look fun
    | .word raw :: _ => .take (wordValue field raw)
    | .upTo :: _ => .take (.leaf (.term (some field) "TO"))
    | .phrase raw :: _ => .take (.leaf (.phrase (some field) (unescaped raw)))
    | .leftParen :: _ => .past (group clause)
    | .leftBracket :: _ => .past (range field true)
    | .leftBrace :: _ => .past (range field false)
    | .unterminated :: _ => .fail [.closingQuote]
    | _ => .fail [.fieldValue]

def clause : (budget : Nat) → (field : Option String) → KindStep Filter
  | 0, _ => .fail [.shallowerNesting]
  | budget + 1, field =>
      .look fun
        | .not :: _ | .minus :: _ | .bang :: _ => .past ((clause budget field).map .not)
        | .plus :: _ => .past (clause budget field)
        | .leftParen :: _ => .past (group (clause budget field))
        | .word raw :: .colon :: _ =>
            .past (.past (value (unescaped raw) (clause budget (some (unescaped raw)))))
        | .word raw :: _ => .take (.leaf (.term field (unescaped raw)))
        | .upTo :: _ => .take (.leaf (.term field "TO"))
        | .phrase raw :: _ => .take (.leaf (.phrase field (unescaped raw)))
        | .leftBracket :: _ =>
            match field with
            | some name => .past (range name true)
            | none => .fail [.term]
        | .leftBrace :: _ =>
            match field with
            | some name => .past (range name false)
            | none => .fail [.term]
        | .unterminated :: _ => .fail [.closingQuote]
        | _ => .fail [.term]

def filter : KindStep Filter := disjunction (clause maxNesting none)

def complete (input : List Kind) : Reply Kind Expectation Filter :=
  match filter.run input with
  | .done _ (kind :: rest) => .stuck [.endOfInput] (kind :: rest)
  | reply => reply

end Reading

structure Reader where
  unread : List Token
  endOffset : Nat
deriving DecidableEq, Repr

namespace Reader

def ofTokens (tokens : List Token) : Reader where
  unread := tokens
  endOffset := (tokens.getLast?.map Token.stop).getD 0

def leaving (reader : Reader) (remaining : Nat) : Reader :=
  { reader with unread := reader.unread.drop (reader.unread.length - remaining) }

def fault (reader : Reader) (expected : List Expectation) : Fault where
  offset := (reader.unread.head?.map Token.start).getD reader.endOffset
  expected := expected
  found := reader.unread.head?.map Token.kind

def read (reader : Reader) : Except Fault Filter × Reader :=
  let reply := Reading.complete (reader.unread.map Token.kind)
  let after := reader.leaving reply.rest.length
  match reply with
  | .done filter _ => (.ok filter, after)
  | .stuck expected _ => (.error (after.fault expected), after)

end Reader

def Filter.ofTokens (tokens : List Token) : Except Fault Filter :=
  (Reader.ofTokens tokens).read.1

def Filter.parse (text : String) : Except Fault Filter :=
  Filter.ofTokens (Token.ofText text)

end ScopedFilter
