import ScopedFilter.Query.Reading
import ScopedFilter.Stack.Rewriting

/-!
Answers to a filter: the query that the stack store is to run, in one of two modes. In the inverted
mode there may be no such query. A failure is why a filter gets no answer.
-/

namespace ScopedFilter

inductive Failure where
  | malformed (fault : Fault)
  | config (error : ConfigError)
  | aliases (reason : String)
deriving DecidableEq, Repr

def Failure.message : Failure → String
  | malformed fault => "无效的过滤条件: " ++ fault.message
  | config error => error.message
  | aliases reason => "字段别名加载失败: " ++ reason

inductive Mode where
  | candidates
  | excluded
deriving DecidableEq, Repr

structure Answer where
  query : String
  invertible : Bool
  mode : Mode
deriving DecidableEq, Repr

def Answer.executable? (answer : Answer) : Option String :=
  if answer.mode = .excluded ∧ answer.invertible = false then none else some answer.query

structure Engine where
  fields : Fields
  sentinels : Sentinels := Sentinels.standard

namespace Engine

def ofConfig (config : Config) : Except ConfigError Engine := do
  return { fields := { table := ← Table.ofConfig config }, sentinels := config.sentinels }

def standard : Engine where
  fields := { table := Table.standard }

def queryText (engine : Engine) (filter : Filter) : String :=
  (filter.inStore engine.fields).toText engine.sentinels

def answer (engine : Engine) (filter : Filter) (mode : Mode) : Answer :=
  let complement := filter.complement? engine.fields
  let query :=
    match mode with
    | .candidates => engine.queryText (filter.relax engine.fields)
    | .excluded => (complement.map engine.queryText).getD ""
  { query, invertible := complement.isSome, mode }

def run (engine : Engine) (text : String) (mode : Mode) : Except Failure Answer :=
  match Filter.parse text with
  | .ok filter => .ok (engine.answer filter mode)
  | .error fault => .error (.malformed fault)

end Engine

end ScopedFilter
