import ScopedFilter.Query.Reading

/-!
Reading a filter in one walk over tokens that stay where they are. A walker has its position among
them and counts how deep the clause it reads is nested. It is moved in place, so that what a walk
has done to it stays when the walk ends with a fault.
-/

namespace ScopedFilter

open Text Reading

structure Walker where
  tokens : List Token
  position : Nat
  depth : Nat
deriving DecidableEq, Repr

namespace Walker

def ofTokens (tokens : List Token) : Walker where
  tokens := tokens
  position := 0
  depth := 0

def token? (walker : Walker) : Option Token := walker.tokens[walker.position]?

def fault (walker : Walker) (expected : List Expectation) : Fault where
  offset :=
    match walker.token? with
    | some token => token.start
    | none => (walker.tokens.getLast?.map Token.stop).getD 0
  expected := expected
  found := walker.token?.map Token.kind

end Walker

def Walk (α : Type) : Type := Walker → Except Fault α × Walker

namespace Walk

variable {α β : Type}

instance : Monad Walk where
  pure value walker := (.ok value, walker)
  bind walk next walker :=
    match walk walker with
    | (.ok value, after) => next value after
    | (.error fault, after) => (.error fault, after)

section

variable {walk : Walk α} {walker after : Walker}

theorem bind_ok {value : α} (ended : walk walker = (.ok value, after)) (next : α → Walk β) :
    (walk >>= next) walker = next value after := by
  change (match walk walker with
    | (.ok value, after) => next value after
    | (.error fault, after) => (.error fault, after)) = _
  rw [ended]

theorem bind_error {fault : Fault} (ended : walk walker = (.error fault, after))
    (next : α → Walk β) : (walk >>= next) walker = (.error fault, after) := by
  change (match walk walker with
    | (.ok value, after) => next value after
    | (.error fault, after) => (.error fault, after)) = _
  rw [ended]

end

def kind? : Walk (Option Kind) := fun walker => (.ok (walker.token?.map Token.kind), walker)

def advance : Walk Unit := fun walker =>
  (.ok (), match walker.token? with
    | some _ => { walker with position := walker.position + 1 }
    | none => walker)

def stop (expected : List Expectation) : Walk α := fun walker =>
  (.error (walker.fault expected), walker)

def expect (kind : Kind) (expected : List Expectation) : Walk Unit := do
  if (← kind?) = some kind then advance else stop expected

def nested (walk : Walk α) : Walk α := fun walker =>
  if maxNesting ≤ walker.depth then stop [.shallowerNesting] walker
  else
    let (result, after) := walk { walker with depth := walker.depth + 1 }
    (result, { after with depth := after.depth - 1 })

/-- Operands as long as `gap` moves on to a further one. No run needs more turns than there are
tokens and one. -/
def operandsFrom (gap : Walk Bool) (operand : Walk α) : (turns : Nat) → Walk (List α)
  | 0 => stop []
  | turns + 1 => do
      let first ← operand
      if ← gap then
        let others ← operandsFrom gap operand turns
        return first :: others
      else
        return [first]

def operands (gap : Walk Bool) (operand : Walk α) : Walk (List α) := fun walker =>
  operandsFrom gap operand (walker.tokens.length + 1) walker

def conjunctGap : Walk Bool := do
  match ← kind? with
  | some .and => do
      advance
      return true
  | some kind => return startsClause kind
  | none => return false

def disjunctGap : Walk Bool := do
  match ← kind? with
  | some .or => do
      advance
      return true
  | _ => return false

def conjunction (clause : Walk Filter) : Walk Filter := do
  let members ← operands conjunctGap clause
  return Filter.joined .and .all members

def disjunction (clause : Walk Filter) : Walk Filter := do
  let members ← operands disjunctGap (conjunction clause)
  return Filter.joined .or .none members

def group (clause : Walk Filter) : Walk Filter := do
  advance
  let inner ← disjunction clause
  expect .rightParen [.rightParen]
  return .group inner

def sign? : Walk (Option String) := do
  match ← kind? with
  | some .minus => do
      advance
      return some "-"
  | some .plus => do
      advance
      return some "+"
  | _ => return none

def bound : Walk String := do
  let sign ← sign?
  match sign, ← kind? with
  | _, some (.word raw) => do
      advance
      return sign.getD "" ++ unescaped raw
  | none, some (.phrase raw) => do
      advance
      return unescaped raw
  | _, _ => stop [.rangeBound]

def rangeEnd : Walk Bool := do
  match ← kind? with
  | some .rightBracket => do
      advance
      return true
  | some .rightBrace => do
      advance
      return false
  | _ => stop [.rightBracket, .rightBrace]

def range (field : String) : Walk Filter := do
  let opening ← kind?
  advance
  let low ← bound
  expect .upTo [.upTo]
  let high ← bound
  let highInclusive ← rangeEnd
  return .leaf (.range field low high ⟨opening = some .leftBracket, highInclusive⟩)

def value (field : String) (clause : Walk Filter) : Walk Filter := do
  match ← kind? with
  | some (.word raw) => do
      advance
      return wordValue field raw
  | some .upTo => do
      advance
      return .leaf (.term (some field) "TO")
  | some (.phrase raw) => do
      advance
      return .leaf (.phrase (some field) (unescaped raw))
  | some .leftParen => group clause
  | some .leftBracket | some .leftBrace => range field
  | some .unterminated => stop [.closingQuote]
  | _ => stop [.fieldValue]

def primary (clause : Option String → Walk Filter) (field : Option String) : Walk Filter := do
  match ← kind? with
  | some .leftParen => group (clause field)
  | some (.word raw) => do
      advance
      if (← kind?) = some .colon then
        advance
        value (unescaped raw) (clause (some (unescaped raw)))
      else
        return .leaf (.term field (unescaped raw))
  | some .upTo => do
      advance
      return .leaf (.term field "TO")
  | some (.phrase raw) => do
      advance
      return .leaf (.phrase field (unescaped raw))
  | some .leftBracket | some .leftBrace =>
      match field with
      | some name => range name
      | none => stop [.term]
  | some .unterminated => stop [.closingQuote]
  | _ => stop [.term]

def signed (clause : Option String → Walk Filter) (field : Option String) : Walk Filter := do
  match ← kind? with
  | some .not | some .minus | some .bang => do
      advance
      let operand ← clause field
      return .not operand
  | some .plus => do
      advance
      clause field
  | _ => primary clause field

/-- Each level of nesting takes a turn. `nested` stops a walk from the top at `maxNesting` levels,
before `maxNesting + 1` turns are used up. -/
def clause : (turns : Nat) → (field : Option String) → Walk Filter
  | 0, _ => stop []
  | turns + 1, field => nested (signed (clause turns) field)

def filter : Walk Filter := do
  let found ← disjunction (clause (maxNesting + 1) none)
  if (← kind?).isSome then stop [.endOfInput] else return found

end Walk

namespace Walker

def read (walker : Walker) : Except Fault Filter × Walker := Walk.filter walker

def after (walker : Walker) : (readings : Nat) → Walker
  | 0 => walker
  | readings + 1 => (walker.after readings).read.2

end Walker

def Reader.after (reader : Reader) : (readings : Nat) → Reader
  | 0 => reader
  | readings + 1 => (reader.after readings).read.2

end ScopedFilter
