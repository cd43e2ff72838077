import ScopedFilter.Filter.Basic
import ScopedFilter.Text.Spelling

/-!
Filters written as query text. Parentheses come from precedence: a disjunction below a conjunction
or a negation and a conjunction below a negation get them, and a group keeps its own. The constants,
and conjunctions and disjunctions of nothing, are written as sentinels.
-/

namespace ScopedFilter

open Text

structure Sentinels where
  all : String
  none : String
deriving DecidableEq, Repr

def Sentinels.standard : Sentinels where
  all := "*:*"
  none := "-*:*"

namespace Leaf

def writtenField : Option String → List Char
  | some field => spellWord field.toList ++ [':']
  | none => []

def written : Leaf → List Char
  | term field value => writtenField field ++ spellWord value.toList
  | phrase field text => writtenField field ++ spellPhrase text.toList
  | range field low high inclusive =>
      writtenField (some field)
        ++ [if inclusive.low then '[' else '\x7b']
        ++ spellWord low.toList ++ " TO ".toList ++ spellWord high.toList
        ++ [if inclusive.high then ']' else '\x7d']

end Leaf

namespace Filter

def isOr : Filter → Bool
  | or _ => true
  | _ => false

def isJoin : Filter → Bool
  | and _ | or _ => true
  | _ => false

def enclosed (wrap : Bool) (text : List Char) : List Char :=
  if wrap then '(' :: text ++ [')'] else text

def written (sentinels : Sentinels) : Filter → List Char
  | leaf test => test.written
  | not child => "NOT ".toList ++ enclosed child.isJoin (child.written sentinels)
  | and members =>
      if members.isEmpty then sentinels.all.toList
      else " AND ".toList.intercalate
        (members.map fun member => enclosed member.isOr (member.written sentinels))
  | or members =>
      if members.isEmpty then sentinels.none.toList
      else " OR ".toList.intercalate (members.map fun member => member.written sentinels)
  | group child => enclosed true (child.written sentinels)
  | all => sentinels.all.toList
  | none => sentinels.none.toList

def toText (sentinels : Sentinels) (filter : Filter) : String :=
  String.ofList (filter.written sentinels)

end Filter

end ScopedFilter
