import ScopedFilter.Json.Value

/-!
Reading a JSON text, in the strict form: one value with nothing but JSON's own white space around
it, no comma after a last item, no sign or zero in front of a number that does not need it. Values
may lie inside one another as deep as the text is long.
-/

namespace ScopedFilter.Json

def isSpace (char : Char) : Bool :=
  char = ' ' || char = '\t' || char = '\n' || char = '\r'

def isDigit (char : Char) : Bool := '0' ≤ char && char ≤ '9'

def digits (input : List Char) : Nat := (input.takeWhile isDigit).length

def wholeLength? (input : List Char) : Option Nat :=
  let count := digits input
  if count = 0 ∨ (1 < count ∧ input.head? = some '0') then none else some count

def fractionLength? : List Char → Option Nat
  | '.' :: rest => if digits rest = 0 then none else some (digits rest + 1)
  | _ => some 0

def signLength (isSign : Char → Bool) : List Char → Nat
  | first :: _ => if isSign first then 1 else 0
  | [] => 0

def exponentLength? : List Char → Option Nat
  | first :: rest =>
      if first = 'e' ∨ first = 'E' then
        let sign := signLength (fun char => char = '+' || char = '-') rest
        let count := digits (rest.drop sign)
        if count = 0 then none else some (count + sign + 1)
      else some 0
  | [] => some 0

def numberLength? (input : List Char) : Option Nat := do
  let sign := signLength (· = '-') input
  let whole ← wholeLength? (input.drop sign)
  let fraction ← fractionLength? (input.drop (sign + whole))
  let exponent ← exponentLength? (input.drop (sign + whole + fraction))
  return sign + whole + fraction + exponent

def number : CharStep JsonValue :=
  .look fun input =>
    match numberLength? input with
    | some (more + 1) => .takes more .number
    | _ => .fail []

def word (text : String) (value : JsonValue) : CharStep JsonValue :=
  .look fun input =>
    if text.toList.isPrefixOf input then .takes (text.length - 1) value else .fail []

def commaGap? (input : List Char) : Option Nat :=
  if (input.dropWhile isSpace).head? = some ',' then
    some ((input.takeWhile isSpace).length + 1)
  else none

def items {α : Type} (close : Char) (item : CharStep α) : CharStep (List α) :=
  .skipping isSpace (.look fun input =>
    if input.head? = some close then .take []
    else
      (Step.operands commaGap? item).bind fun found =>
        .skipping isSpace ((Step.expect close []).map fun _ => found))

def name : CharStep (Option String) :=
  .skipping isSpace (.look fun input =>
    if input.head? = some '"' then .past quotedRest else .fail [])

def member (value : CharStep JsonValue) : CharStep (Option String × JsonValue) :=
  name.bind fun key =>
    (Step.skipping isSpace (Step.expect ':' [])).bind fun _ =>
      value.map fun content => (key, content)

/-- A value with white space before it; at most `depth` values may lie inside one another. -/
def value : (depth : Nat) → CharStep JsonValue
  | 0 => .fail []
  | depth + 1 =>
      .skipping isSpace (.look fun
        | '"' :: _ => .past (quotedRest.map .string)
        | '[' :: _ => .past ((items ']' (value depth)).map .array)
        | '\x7b' :: _ => .past ((items '\x7d' (member (value depth))).map .object)
        | 't' :: _ => word "true" (.bool true)
        | 'f' :: _ => word "false" (.bool false)
        | 'n' :: _ => word "null" .null
        | _ => number)

end ScopedFilter.Json

namespace ScopedFilter

def JsonValue.parse? (text : List Char) : Option JsonValue :=
  match (Json.value text.length).run text with
  | .done value rest => if rest.all Json.isSpace then some value else none
  | .stuck _ _ => none

end ScopedFilter
