import ScopedFilter.Context.Registry

/-!
Histories of contexts. Requests are served one after another; each is made on one of the contexts
there are by then. Contexts are numbered in the order in which they were made, and a new one comes
last. A source that is given to two contexts counts as two, each with the answers that it gives
there.
-/

namespace ScopedFilter

inductive Question where
  | resolve (name : String)
  | lookup (name : String)
  | scope (field? : Option String)

inductive Operation where
  | prepare
  | run (text : String) (mode : Mode)
  | ask (question : Question)
  | clone
  | withAliases (aliases : Aliases)
  | withSource (source : Source)

structure Request where
  on : Nat
  operation : Operation

inductive Outcome where
  | prepared (result : Except Failure Aliases)
  | answered (result : Except Failure Answer)
  | name (name : String)
  | entry (found : Option Entry)
  | scope (scope : Scope)
  | made

def Fields.tell (fields : Fields) : Question → Outcome
  | .resolve name => .name (fields.resolve name)
  | .lookup name => .entry (fields.lookup? name)
  | .scope field? => .scope (fields.scope field?)

def Operation.loads : Operation → Bool
  | prepare | run _ _ => true
  | _ => false

def Operation.founds : Operation → Bool
  | withAliases _ | withSource _ => true
  | _ => false

structure World where
  registry : Registry := {}
  contexts : List Context := []

namespace World

def family (world : World) (place : Nat) : Family := world.registry.families.getD place {}

def cell (world : World) (place : Nat) : Option Aliases := (world.family place).published?

def welcome (world : World) (made : Context × Registry) : World where
  registry := made.2
  contexts := world.contexts ++ [made.1]

def start (table : Table) : World := welcome {} (({} : Registry).enrol table {})

def perform (world : World) (context : Context) : Operation → Outcome × World
  | .prepare =>
      let (result, registry) := world.registry.prepare context
      (.prepared result, { world with registry })
  | .run text mode =>
      let (result, registry) := world.registry.run context text mode
      (.answered result, { world with registry })
  | .ask question => ((world.registry.fields context).tell question, world)
  | .clone => (.made, world.welcome (context, world.registry))
  | .withAliases aliases => (.made, world.welcome (world.registry.withAliases context aliases))
  | .withSource source => (.made, world.welcome (world.registry.withSource context source))

/-- A request on a context that does not exist has no outcome. -/
def serve (world : World) (request : Request) : Option Outcome × World :=
  match world.contexts[request.on]? with
  | some context =>
      let (outcome, after) := world.perform context request.operation
      (some outcome, after)
  | none => (none, world)

def after (world : World) (requests : List Request) : World :=
  requests.foldl (fun world request => (world.serve request).2) world

def transcript (world : World) : List Request → List (Request × Option Outcome)
  | [] => []
  | request :: later =>
      (request, (world.serve request).1) :: (world.serve request).2.transcript later

/-- What is asked of the contexts with these numbers and of those made from them, with the outcomes.
They are numbered anew: by their places in `numbers`, and those made later come behind. -/
def account (world : World) (numbers : List Nat) : List Request → List (Request × Option Outcome)
  | [] => []
  | request :: later =>
      let (outcome, next) := world.serve request
      match numbers.idxOf? request.on with
      | none => next.account numbers later
      | some number =>
          let made := List.range' world.contexts.length
            (next.contexts.length - world.contexts.length)
          (⟨number, request.operation⟩, outcome) :: next.account (numbers ++ made) later

def needs (world : World) (place : Nat) (request : Request) : Bool :=
  request.operation.loads && world.contexts[request.on]?.any (·.family == place)

/-- How often the aliases of a family are needed while it has none. -/
def askings (world : World) (place : Nat) : List Request → Nat
  | [] => 0
  | request :: later =>
      (if world.needs place request ∧ world.cell place = none then 1 else 0)
        + (world.serve request).2.askings place later

end World

end ScopedFilter
