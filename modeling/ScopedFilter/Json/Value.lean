import ScopedFilter.Step

/-!
JSON values and their quoted strings. Members keep their order and may repeat a name; of a number
only its presence is kept. A string is read as pieces: plain characters, and code units of UTF-16
that are written as four hexadecimal digits. Two units that form a surrogate pair are one character.
A surrogate without its partner is none, and the string then stands for no text. Values are written
without any white space: such a string as a surrogate alone, and every number as zero.
-/

namespace ScopedFilter

inductive JsonValue where
  | null
  | bool (value : Bool)
  | number
  | string (text : Option String)
  | array (items : List JsonValue)
  | object (members : List (Option String × JsonValue))
deriving Repr

def JsonValue.ofString (text : String) : JsonValue := .string (some text)

namespace Json

/-- A step over the characters of a JSON text; nobody asks what it expected. -/
abbrev CharStep := Step Char Unit

inductive Piece where
  | char (char : Char)
  | unit (code : Nat)
deriving DecidableEq, Repr

def hexValue? (char : Char) : Option Nat :=
  if '0' ≤ char ∧ char ≤ '9' then some (char.toNat - '0'.toNat)
  else if 'a' ≤ char ∧ char ≤ 'f' then some (char.toNat - 'a'.toNat + 10)
  else if 'A' ≤ char ∧ char ≤ 'F' then some (char.toNat - 'A'.toNat + 10)
  else none

def hexCode? (digits : List Char) : Option Nat :=
  digits.foldl (fun code digit =>
    code.bind fun high => (hexValue? digit).map fun low => 16 * high + low) (some 0)

def shortEscapes : List (Char × Char) :=
  [('"', '"'), ('\\', '\\'), ('/', '/'), ('b', '\x08'), ('f', '\x0c'), ('n', '\n'), ('r', '\r'),
   ('t', '\t')]

def piece : CharStep Piece :=
  .look fun
    | '\\' :: 'u' :: a :: b :: c :: d :: _ =>
        match hexCode? [a, b, c, d] with
        | some code => .takes 5 (.unit code)
        | none => .fail []
    | '\\' :: letter :: _ =>
        match shortEscapes.lookup letter with
        | some char => .takes 1 (.char char)
        | none => .fail []
    | char :: _ => if char = '\\' ∨ char = '"' ∨ char < ' ' then .fail [] else .take (.char char)
    | [] => .fail []

def pieces : CharStep (List Piece) :=
  .look fun input =>
    if input.head? = some '"' then .take []
    else
      (Step.operands (fun rest => if rest.head? = some '"' then none else some 0) piece).bind
        fun found => .take found

def isHighSurrogate (code : Nat) : Bool := 0xD800 ≤ code && code < 0xDC00

def isLowSurrogate (code : Nat) : Bool := 0xDC00 ≤ code && code < 0xE000

/-- The characters that the pieces stand for, unless a surrogate is left alone. -/
def decoded? : List Piece → Option (List Char)
  | [] => some []
  | .char char :: rest => (decoded? rest).map (char :: ·)
  | .unit high :: .unit low :: rest =>
      if isHighSurrogate high then
        if isLowSurrogate low then
          (decoded? rest).map
            (Char.ofNat (0x10000 + 0x400 * (high - 0xD800) + (low - 0xDC00)) :: ·)
        else none
      else if isLowSurrogate high then none
      else (decoded? (.unit low :: rest)).map (Char.ofNat high :: ·)
  | .unit code :: rest =>
      if isHighSurrogate code || isLowSurrogate code then none
      else (decoded? rest).map (Char.ofNat code :: ·)

def quotedRest : CharStep (Option String) :=
  pieces.map fun found => (decoded? found).map String.ofList

def hexDigit (value : Nat) : Char :=
  if value < 10 then Char.ofNat ('0'.toNat + value) else Char.ofNat ('a'.toNat + value - 10)

/-- How a character is written inside quotes: only the quote, the backslash and the control
characters below the space are escaped, the latter by their letter if they have one. -/
def escapedChar (char : Char) : List Char :=
  match char with
  | '"' => ['\\', '"']
  | '\\' => ['\\', '\\']
  | '\x08' => ['\\', 'b']
  | '\t' => ['\\', 't']
  | '\n' => ['\\', 'n']
  | '\x0c' => ['\\', 'f']
  | '\r' => ['\\', 'r']
  | char =>
      if char < ' ' then
        ['\\', 'u', '0', '0', hexDigit (char.toNat / 16), hexDigit (char.toNat % 16)]
      else [char]

def quoted (text : List Char) : List Char :=
  '"' :: text.flatMap escapedChar ++ ['"']

def commaSeparated (items : List (List Char)) : List Char := [','].intercalate items

def quotedOrLone : Option String → List Char
  | some text => quoted text.toList
  | none => ['"', '\\', 'u', 'd', '8', '0', '0', '"']

end Json

open Json

def JsonValue.written : JsonValue → List Char
  | null => "null".toList
  | bool value => if value then "true".toList else "false".toList
  | number => ['0']
  | string text => quotedOrLone text
  | array items => '[' :: commaSeparated (items.map written) ++ [']']
  | object members =>
      '\x7b' :: commaSeparated
        (members.map fun member => quotedOrLone member.1 ++ ':' :: member.2.written) ++ ['\x7d']
termination_by value => sizeOf value
decreasing_by
  · rename_i known
    have smaller := List.sizeOf_lt_of_mem known
    simp only [array.sizeOf_spec]
    omega
  · rename_i known
    have smaller := List.sizeOf_lt_of_mem known
    cases member
    simp only [Prod.mk.sizeOf_spec] at smaller
    simp only [object.sizeOf_spec]
    omega

end ScopedFilter
