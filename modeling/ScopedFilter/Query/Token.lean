/-!
Tokens of the query language: what a piece of the text is, and the bytes it takes. A fault tells
where reading them stopped, what could have stood there, and what stood there instead.
-/

namespace ScopedFilter

/-- What a piece of query text is. Words and phrases keep their backslashes. -/
inductive Kind where
  | and
  | or
  | not
  | upTo
  | word (raw : String)
  | phrase (raw : String)
  | leftParen
  | rightParen
  | leftBracket
  | rightBracket
  | leftBrace
  | rightBrace
  | colon
  | minus
  | plus
  | bang
  | unterminated
deriving DecidableEq, Repr

namespace Kind

def keyword? (word : List Char) : Option Kind :=
  match word with
  | ['A', 'N', 'D'] | ['&', '&'] => some and
  | ['O', 'R'] | ['|', '|'] => some or
  | ['N', 'O', 'T'] => some not
  | ['T', 'O'] => some upTo
  | _ => none

def ofWord (raw : List Char) : Kind :=
  (keyword? raw).getD (word (String.ofList raw))

def punctuation? : Char → Option Kind
  | '(' => some leftParen
  | ')' => some rightParen
  | '[' => some leftBracket
  | ']' => some rightBracket
  | '\x7b' => some leftBrace
  | '\x7d' => some rightBrace
  | ':' => some colon
  | _ => none

def sign? : Char → Option Kind
  | '-' => some minus
  | '+' => some plus
  | '!' => some bang
  | _ => none

def describe : Kind → String
  | and => "'AND'"
  | or => "'OR'"
  | not => "'NOT'"
  | upTo => "'TO'"
  | word raw => "'" ++ raw ++ "'"
  | phrase raw => "\"" ++ raw ++ "\""
  | leftParen => "'('"
  | rightParen => "')'"
  | leftBracket => "'['"
  | rightBracket => "']'"
  | leftBrace => "'\x7b'"
  | rightBrace => "'\x7d'"
  | colon => "':'"
  | minus => "'-'"
  | plus => "'+'"
  | bang => "'!'"
  | unterminated => "未结束的短语"

end Kind

/-- A kind with the bytes of the text that it was read from: from `start` up to `stop`, which is not
among them. -/
structure Token where
  kind : Kind
  start : Nat
  stop : Nat
deriving DecidableEq, Repr

inductive Expectation where
  | term
  | fieldValue
  | rangeBound
  | shallowerNesting
  | rightParen
  | upTo
  | rightBracket
  | rightBrace
  | closingQuote
  | endOfInput
deriving DecidableEq, Repr

def Expectation.label : Expectation → String
  | term => "term"
  | fieldValue => "field value"
  | rangeBound => "range bound"
  | shallowerNesting => "shallower nesting"
  | rightParen => "')'"
  | upTo => "'TO'"
  | rightBracket => "']'"
  | rightBrace => "'\x7d'"
  | closingQuote => "closing '\"'"
  | endOfInput => "end of input"

/-- The offset is where the token that was `found` starts, or the end of the input if none was. -/
structure Fault where
  offset : Nat
  expected : List Expectation
  found : Option Kind
deriving DecidableEq, Repr

namespace Fault

def foundText (fault : Fault) : String :=
  match fault.found with
  | some kind => kind.describe
  | none => "输入结束"

def message (fault : Fault) : String :=
  "期望 " ++ " 或 ".intercalate (fault.expected.map Expectation.label)
    ++ "，实际遇到 " ++ fault.foundText ++ "（位置 " ++ toString fault.offset ++ "）"

end Fault

end ScopedFilter
