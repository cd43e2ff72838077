import ScopedFilter.Text.Spelling
import ScopedFilter.Text.Width

/-!
Lexemes: a text cut into pieces. Each piece keeps the blanks before it and its own characters, so
that nothing is lost; adding up the widths then gives the tokens their places. A cursor reads the
tokens of a text one after the other: it sees the character before its place and all that is ahead.
-/

namespace ScopedFilter

open Text

structure Lexeme where
  gap : List Char
  kind : Kind
  source : List Char
deriving DecidableEq, Repr

namespace Lexeme

/-- How many characters still belong to a word: all up to the first that ends one and is not
escaped. -/
def wordLength (escaped : Bool) : List Char → Nat
  | [] => 0
  | char :: rest =>
      if !escaped && endsWord char then 0 else wordLength (!escaped && char = '\\') rest + 1

def phraseLength? (escaped : Bool) : List Char → Option Nat
  | [] => none
  | char :: rest =>
      if !escaped && char = '"' then some 0
      else (phraseLength? (!escaped && char = '\\') rest).map (· + 1)

/-- A sign is an operator if an operand follows at once and no colon stands directly before it;
after a colon it belongs to the value. -/
def operator? (afterColon : Bool) (first : Char) (rest : List Char) : Option Kind :=
  match Kind.sign? first, rest with
  | some kind, next :: _ => if afterColon || isBlank next then none else some kind
  | _, _ => none

def head (afterColon : Bool) (first : Char) (rest : List Char) : Kind × Nat :=
  if first = '"' then
    match phraseLength? false rest with
    | some length => (.phrase (String.ofList (rest.take length)), length + 1)
    | none => (.unterminated, rest.length)
  else
    match (Kind.punctuation? first).or (operator? afterColon first rest) with
    | some kind => (kind, 0)
    | none =>
        let length := wordLength (first = '\\') rest
        (Kind.ofWord (first :: rest.take length), length)

/-- Cuts a text into lexemes; `afterColon` tells that a colon stands directly before it. -/
def cut (afterColon : Bool) (text : List Char) : List Lexeme :=
  let gap := text.takeWhile isBlank
  match present : text.dropWhile isBlank with
  | [] => []
  | first :: rest =>
      have shorter : (rest.drop (head (afterColon && gap.isEmpty) first rest).2).length
          < text.length := by
        have suffix := (List.dropWhile_suffix (l := text) isBlank).length_le
        simp only [present, List.length_cons] at suffix
        simp only [List.length_drop]
        omega
      let piece := head (afterColon && gap.isEmpty) first rest
      { gap, kind := piece.1, source := first :: rest.take piece.2 }
        :: cut (piece.1 = .colon) (rest.drop piece.2)
termination_by text.length
decreasing_by exact shorter

def placed (start : Nat) : List Lexeme → List Token
  | [] => []
  | lexeme :: rest =>
      let first := start + width lexeme.gap
      let last := first + width lexeme.source
      { kind := lexeme.kind, start := first, stop := last } :: placed last rest

end Lexeme

def Token.ofText (text : String) : List Token :=
  Lexeme.placed 0 (Lexeme.cut false text.toList)

structure Cursor where
  before : List Char
  ahead : List Char
deriving DecidableEq, Repr

namespace Cursor

def ofText (text : String) : Cursor := ⟨[], text.toList⟩

def next? (cursor : Cursor) : Option (Token × Cursor) :=
  let start := cursor.before ++ cursor.ahead.takeWhile isBlank
  match cursor.ahead.dropWhile isBlank with
  | [] => none
  | first :: rest =>
      let piece := Lexeme.head (start.getLast? = some ':') first rest
      let stop := start ++ first :: rest.take piece.2
      some (⟨piece.1, width start, width stop⟩, ⟨stop, rest.drop piece.2⟩)

/-- Reading on from one place comes to stand at another, behind a token or a blank. -/
inductive Reaches : Cursor → List Token → Cursor → Prop
  | here {cursor} : Reaches cursor [] cursor
  | blank {before first rest tokens after} : isBlank first = true →
      Reaches ⟨before ++ [first], rest⟩ tokens after → Reaches ⟨before, first :: rest⟩ tokens after
  | next {cursor token middle tokens after} : cursor.next? = some (token, middle) →
      Reaches middle tokens after → Reaches cursor (token :: tokens) after

def remaining (cursor : Cursor) : List Token :=
  Lexeme.placed (width cursor.before)
    (Lexeme.cut (cursor.before.getLast? = some ':') cursor.ahead)

end Cursor

end ScopedFilter
