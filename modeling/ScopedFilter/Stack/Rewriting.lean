import ScopedFilter.Fields.Table

/-!
What the stack store can say about a filter. Tests of event fields are uncertain: a conjunction
goes on without an uncertain member, a disjunction with one is uncertain, and so is a negation of
one. The relaxed filter admits everything where the whole is uncertain. A conjunction that goes on
without a member stands for more than it says, and its negation for less.

The complement of a filter is taken within its tenant. The conjuncts that restrict the tenant stay
as they are, and the relaxed filter of the rest is negated. This takes tenant fields to stand only
in leading conjuncts of their own.
-/

namespace ScopedFilter.Filter

def regrouped (filter : Filter) : Filter :=
  if filter.isJoin then group filter else filter

/-- The part of a filter that the stack store can decide, or nothing if that is uncertain. -/
def reduce (fields : Fields) : Filter → Option Filter
  | leaf test => bif fields.decides test then some (leaf test) else Option.none
  | not child => (child.reduce fields).map negate
  | and members => some (conj (members.filterMap (reduce fields)))
  | or members =>
      let parts := members.map (reduce fields)
      bif parts.all Option.isSome then some (disj (parts.filterMap id)) else Option.none
  | group child => (child.reduce fields).map regrouped
  | all => some all
  | none => some none

def relax (fields : Fields) (filter : Filter) : Filter := (filter.reduce fields).getD all

def isTenantClause (fields : Fields) : Filter → Bool
  | leaf test => fields.isTenant test
  | and members => (members.map (isTenantClause fields)).all id
  | group child => child.isTenantClause fields
  | _ => false

def mentionsTenant (fields : Fields) (filter : Filter) : Bool :=
  (filter.search fields.isTenant).1.isSome

theorem mentionsTenant_eq (fields : Fields) (filter : Filter) :
    filter.mentionsTenant fields = filter.leaves.any fields.isTenant :=
  isSome_search fields.isTenant filter

def clauses (filter : Filter) : List Filter := filter.ungrouped.conjuncts

def tenantClauses (fields : Fields) (filter : Filter) : List Filter :=
  filter.clauses.takeWhile (isTenantClause fields)

def otherClauses (fields : Fields) (filter : Filter) : List Filter :=
  filter.clauses.dropWhile (isTenantClause fields)

def complement? (fields : Fields) (filter : Filter) : Option Filter :=
  let others := filter.otherClauses fields
  bif others.any (mentionsTenant fields) then Option.none
  else some (conj (filter.tenantClauses fields ++ [negate (relax fields (joined and all others))]))

end ScopedFilter.Filter
