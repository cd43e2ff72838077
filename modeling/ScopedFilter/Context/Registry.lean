import ScopedFilter.Context.Family

/-!
Contexts and the registry of their families. A context is a field table and a place in the
registry. A clone of a context is the same context; giving a context other aliases or another source
makes a context of a new family, which no older context belongs to.
-/

namespace ScopedFilter

structure Context where
  table : Table
  family : Nat

structure Registry where
  families : List Family := []

namespace Registry

def family (registry : Registry) (context : Context) : Family :=
  registry.families.getD context.family {}

def fields (registry : Registry) (context : Context) : Fields where
  table := context.table
  aliases := (registry.family context).published?.getD []

def enrol (registry : Registry) (table : Table) (family : Family) : Context × Registry :=
  ({ table, family := registry.families.length }, { families := registry.families ++ [family] })

def withAliases (registry : Registry) (context : Context) (aliases : Aliases) :
    Context × Registry :=
  registry.enrol context.table (Family.ofAliases aliases)

def withSource (registry : Registry) (context : Context) (source : Source) :
    Context × Registry :=
  registry.enrol context.table (Family.ofSource source)

def prepare (registry : Registry) (context : Context) :
    Except Failure Aliases × Registry :=
  let (outcome, family) := (registry.family context).prepare
  (outcome, { families := registry.families.set context.family family })

/-- Answers a filter in a context. The aliases are asked for before the filter is read. -/
def run (registry : Registry) (context : Context) (text : String) (mode : Mode) :
    Except Failure Answer × Registry :=
  match registry.prepare context with
  | (.error failure, after) => (.error failure, after)
  | (.ok _, after) => (Engine.run { fields := after.fields context } text mode, after)

theorem run_eq (registry : Registry) (context : Context) (text : String) (mode : Mode) :
    registry.run context text mode =
      ((registry.prepare context).1.bind fun _ =>
        Engine.run { fields := (registry.prepare context).2.fields context } text mode,
        (registry.prepare context).2) := by
  rw [run]
  rcases registry.prepare context with ⟨_ | _, after⟩ <;> rfl

theorem fields_prepare {registry : Registry} {context : Context}
    (known : context.family < registry.families.length) :
    (registry.prepare context).2.fields context =
      { table := context.table,
        aliases := (registry.family context).prepare.1.toOption.getD [] } := by
  simp [fields, prepare, family, known, Family.published?_prepare]

theorem run_fst {registry : Registry} {context : Context}
    (known : context.family < registry.families.length) (text : String) (mode : Mode) :
    (registry.run context text mode).1 = (registry.family context).prepare.1.bind fun aliases =>
      Engine.run { fields := { table := context.table, aliases } } text mode := by
  rw [run_eq, fields_prepare known]
  change (registry.family context).prepare.1.bind _ = _
  cases (registry.family context).prepare.1 <;> rfl

/-- How often each source was asked, in the order in which the sources came. -/
def calls (registry : Registry) : List Nat :=
  registry.families.filterMap fun family => family.source?.map fun _ => family.calls

def describe (registry : Registry) (context : Context) : String :=
  let family := registry.family context
  let aliases :=
    match family.published? with
    | some aliases => "Some(" ++ toString aliases.length ++ ")"
    | none => "None"
  "QueryContext \x7b fields: " ++ toString context.table.size
    ++ ", has_alias_source: " ++ toString family.source?.isSome
    ++ ", aliases: " ++ aliases ++ " \x7d"

theorem describe_congr {left right : Registry} {context : Context}
    (source : (left.family context).source? = (right.family context).source?)
    (published : (left.family context).published? = (right.family context).published?) :
    left.describe context = right.describe context := by
  unfold describe
  simp only [source, published]

end Registry

end ScopedFilter
