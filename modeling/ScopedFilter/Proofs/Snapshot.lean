import Mathlib
import ScopedFilter.Context.History

/-!
One set of aliases is published in each family of contexts, and for good. A request changes at most
one family, and that by preparing it; so the life of a family is told by the requests on its own
contexts alone. Main statement: `keepsSnapshots_after`.
-/

namespace ScopedFilter

/-- What a source has been heard to say: nothing but failures before its last answer, and the
published aliases are that answer. -/
structure Family.Heard (source : Source) (family : Family) : Prop where
  attached : family.source? = some source
  last : ∀ number aliases, number < family.calls → source number = .ok aliases →
    number + 1 = family.calls ∧ family.published? = some aliases
  given : ∀ aliases, family.published? = some aliases →
    ∃ number, number + 1 = family.calls ∧ source number = .ok aliases

theorem Family.heard_ofSource (source : Source) : Heard source (ofSource source) where
  attached := rfl
  last := by
    intro number aliases earlier
    simp [ofSource] at earlier
  given := by
    intro aliases published
    simp [ofSource] at published

theorem Family.Heard.prepare {source : Source} {family : Family} (heard : Heard source family) :
    Heard source family.prepare.2 := by
  rcases Option.eq_none_or_eq_some family.published? with empty | ⟨aliases, published⟩
  · rw [prepare_of_attached empty heard.attached]
    refine ⟨heard.attached, ?_, ?_⟩
    · intro number aliases earlier answer
      by_cases now : number = family.calls
      · subst number
        simp [answer, Except.toOption]
      · have before : number < family.calls := by
          change number < family.calls + 1 at earlier
          omega
        have published := (heard.last number aliases before answer).2
        rw [empty] at published
        cases published
    · intro aliases answer
      refine ⟨family.calls, rfl, ?_⟩
      cases result : source family.calls with
      | ok given =>
          simp only [result, Except.toOption] at answer
          cases answer
          rfl
      | error failure => simp [result, Except.toOption] at answer
  · rw [prepare_of_published published]
    exact heard

theorem Family.Heard.calls_le {source : Source} {family : Family} (heard : Heard source family)
    {number : Nat} {aliases : Aliases} (answer : source number = .ok aliases) :
    family.calls ≤ number + 1 := by
  by_cases earlier : number < family.calls
  · exact Nat.le_of_eq (heard.last number aliases earlier answer).1.symm
  · omega

theorem Family.Heard.calls_ofList_le {answers : List (Except Failure Aliases)} {family : Family}
    (heard : Heard (Source.ofList answers) family) {number : Nat} {aliases : Aliases}
    (answer : answers[number]? = some (.ok aliases)) : family.calls ≤ number + 1 := by
  apply heard.calls_le
  rw [Source.ofList, answer]
  rfl

def Family.outcome (family : Family) (table : Table) : Operation → Outcome
  | .prepare => .prepared family.prepare.1
  | .run text mode => .answered (family.prepare.1.bind fun aliases =>
      Engine.run { fields := { table, aliases } } text mode)
  | .ask question => ({ table, aliases := family.published?.getD [] } : Fields).tell question
  | .clone | .withAliases _ | .withSource _ => .made

namespace World

variable {world made : World} {context : Context} {place : Nat}

section Step

inductive Moves (world : World) (context : Context) : Operation → World → Prop
  | loaded {operation} : operation.loads = true →
      Moves world context operation { world with registry := (world.registry.prepare context).2 }
  | told (question) : Moves world context (.ask question) world
  | cloned : Moves world context .clone (world.welcome (context, world.registry))
  | founded {operation} (family : Family) : operation.founds = true →
      Moves world context operation (world.welcome (world.registry.enrol context.table family))

theorem moves_perform (world : World) (context : Context) (operation : Operation) :
    Moves world context operation (world.perform context operation).2 := by
  cases operation with
  | prepare => exact .loaded rfl
  | run text mode =>
      have moves : Moves world context (.run text mode) _ := .loaded rfl
      rw [perform, Registry.run_eq]
      exact moves
  | ask question => exact .told question
  | clone => exact .cloned
  | withAliases aliases => exact .founded (Family.ofAliases aliases) rfl
  | withSource source => exact .founded (Family.ofSource source) rfl

theorem family_welcome_enrol (world : World) (table : Table) (newcomer : Family) :
    (world.welcome (world.registry.enrol table newcomer)).family
      world.registry.families.length = newcomer := by
  simp [family, welcome, Registry.enrol]

theorem serve_of_getElem? {request : Request} (on : world.contexts[request.on]? = some context) :
    world.serve request = (some (world.perform context request.operation).1,
      (world.perform context request.operation).2) := by
  rw [serve, on]

theorem serve_cases (world : World) (request : Request) :
    world.contexts[request.on]? = none ∧ (world.serve request).2 = world ∨
      ∃ context, world.contexts[request.on]? = some context ∧
        Moves world context request.operation (world.serve request).2 := by
  rcases Option.eq_none_or_eq_some world.contexts[request.on]? with on | ⟨context, on⟩
  · refine .inl ⟨on, ?_⟩
    rw [serve, on]
  · refine .inr ⟨context, on, ?_⟩
    rw [serve_of_getElem? on]
    exact moves_perform world context request.operation

structure Coherent (table : Table) (world : World) : Prop where
  tables : ∀ context ∈ world.contexts, context.table = table
  families : ∀ context ∈ world.contexts, context.family < world.registry.families.length

variable {table : Table}

theorem coherent_start (table : Table) : Coherent table (start table) where
  tables := by simp [start, welcome, Registry.enrol]
  families := by simp [start, welcome, Registry.enrol]

theorem coherent_welcome (coherent : Coherent table world) {made : Context × Registry}
    (same : made.1.table = table) (known : made.1.family < made.2.families.length)
    (grows : world.registry.families.length ≤ made.2.families.length) :
    Coherent table (world.welcome made) := by
  constructor
  · intro context among
    rcases List.mem_append.mp among with old | new
    · exact coherent.tables context old
    · rw [List.mem_singleton.mp new]
      exact same
  · intro context among
    rcases List.mem_append.mp among with old | new
    · exact Nat.lt_of_lt_of_le (coherent.families context old) grows
    · rw [List.mem_singleton.mp new]
      exact known

theorem Coherent.serve (coherent : Coherent table world) (request : Request) :
    Coherent table (world.serve request).2 := by
  obtain ⟨_, same⟩ | ⟨context, on, moves⟩ := serve_cases world request
  · rw [same]
    exact coherent
  · have present := List.mem_of_getElem? on
    have tables := coherent.tables context present
    have known := coherent.families context present
    generalize (world.serve request).2 = next at moves
    obtain ⟨number, operation⟩ := request
    cases moves with
    | loaded =>
        refine ⟨coherent.tables, ?_⟩
        simpa [Registry.prepare] using coherent.families
    | told => exact coherent
    | cloned => exact coherent_welcome coherent tables known (Nat.le_refl _)
    | founded family =>
        apply coherent_welcome coherent tables
        · simp [Registry.enrol]
        · simp [Registry.enrol]

theorem Coherent.after (coherent : Coherent table world) (requests : List Request) :
    Coherent table (world.after requests) := by
  induction requests generalizing world with
  | nil => exact coherent
  | cons request later ih => exact ih (coherent.serve request)

/-- An operation makes no context, another one of the same family, or one of a family of its own. -/
theorem perform_cases (operation : Operation) :
    (∀ world context, (perform world context operation).2.contexts = world.contexts) ∨
      operation = .clone ∨ ∃ family, ∀ world context,
        (perform world context operation).2 =
          world.welcome (world.registry.enrol context.table family) := by
  cases operation with
  | prepare | run _ _ | ask _ => exact .inl fun _ _ => rfl
  | clone => exact .inr (.inl rfl)
  | withAliases aliases => exact .inr (.inr ⟨Family.ofAliases aliases, fun _ _ => rfl⟩)
  | withSource source => exact .inr (.inr ⟨Family.ofSource source, fun _ _ => rfl⟩)

theorem loads_of_founds {operation : Operation} (founds : operation.founds = true) :
    operation.loads = false := by
  cases operation <;> first | rfl | cases founds

theorem needs_of_getElem? {request : Request}
    (on : world.contexts[request.on]? = some context) :
    world.needs place request = (request.operation.loads && context.family == place) := by
  rw [needs, on, Option.any_some]

/-- A request changes no family but the one whose aliases it needs. -/
theorem family_serve (known : place < world.registry.families.length) (request : Request) :
    (world.serve request).2.family place =
      if world.needs place request then (world.family place).prepare.2 else world.family place := by
  obtain ⟨on, same⟩ | ⟨context, on, moves⟩ := serve_cases world request
  · rw [same]
    simp [needs, on]
  · rw [needs_of_getElem? on]
    generalize (world.serve request).2 = next at moves
    obtain ⟨number, operation⟩ := request
    cases moves with
    | loaded loads =>
        by_cases own : context.family = place
        · simp [family, Registry.prepare, Registry.family, own, loads, known]
        · simp [family, Registry.prepare, own, known]
    | told => rfl
    | cloned => rfl
    | founded newcomer founds =>
        simp only [loads_of_founds founds]
        simp [family, welcome, Registry.enrol, List.getElem?_append_left known]

theorem contexts_serve (world : World) (request : Request) :
    (world.serve request).2.contexts = world.contexts ∨
      ∃ newcomer, (world.serve request).2.contexts = world.contexts ++ [newcomer] ∧
        (world.contexts[request.on]? = some newcomer ∨
          newcomer.family = world.registry.families.length) := by
  obtain ⟨_, same⟩ | ⟨context, on, moves⟩ := serve_cases world request
  · rw [same]
    exact .inl rfl
  · generalize (world.serve request).2 = next at moves
    obtain ⟨number, operation⟩ := request
    cases moves with
    | loaded => exact .inl rfl
    | told => exact .inl rfl
    | cloned => exact .inr ⟨context, rfl, .inl on⟩
    | founded => exact .inr ⟨_, rfl, .inr rfl⟩

theorem grows_serve (world : World) (request : Request) :
    world.contexts <+: (world.serve request).2.contexts ∧
      world.registry.families.length ≤ (world.serve request).2.registry.families.length := by
  obtain ⟨_, same⟩ | ⟨context, _, moves⟩ := serve_cases world request
  · rw [same]
    exact ⟨List.prefix_rfl, Nat.le_refl _⟩
  · generalize (world.serve request).2 = next at moves
    obtain ⟨number, operation⟩ := request
    cases moves with
    | loaded => simp [Registry.prepare]
    | told => exact ⟨List.prefix_rfl, Nat.le_refl _⟩
    | cloned => exact ⟨List.prefix_append _ _, Nat.le_refl _⟩
    | founded => exact ⟨List.prefix_append _ _, by simp [welcome, Registry.enrol]⟩

end Step

section Outcome

theorem perform_fst (known : context.family < world.registry.families.length)
    (operation : Operation) :
    (world.perform context operation).1 =
      (world.family context.family).outcome context.table operation := by
  cases operation with
  | run text mode => exact congrArg Outcome.answered (Registry.run_fst known text mode)
  | _ => rfl

theorem serve_fst {request : Request} (on : world.contexts[request.on]? = some context)
    (known : context.family < world.registry.families.length) :
    (world.serve request).1 =
      some ((world.family context.family).outcome context.table request.operation) := by
  rw [serve_of_getElem? on, perform_fst known]

end Outcome

section Apart

theorem old_or_last {contexts : List Context} {newcomer : Context} {number : Nat}
    (found : (contexts ++ [newcomer])[number]? = some context) :
    contexts[number]? = some context ∨ number = contexts.length ∧ context = newcomer := by
  rw [List.getElem?_append] at found
  split at found
  · exact .inl found
  · rw [List.getElem?_singleton] at found
    split at found
    · cases found
      exact .inr ⟨by omega, rfl⟩
    · cases found

structure Twin where
  number : Nat
  left : Context
  right : Context

/-- All contexts of the first world have a twin in the second. What else there is belongs to other
families. -/
structure Alongside (twins : List Twin) (world made : World) : Prop where
  contexts : world.contexts = twins.map Twin.left
  numbered : ∀ twin ∈ twins, made.contexts[twin.number]? = some twin.right
  families : ∀ twin ∈ twins, world.family twin.left.family = made.family twin.right.family
  kin : ∀ first ∈ twins, ∀ second ∈ twins,
    first.left.family = second.left.family ↔ first.right.family = second.right.family
  strangers : ∀ number stranger, made.contexts[number]? = some stranger →
    number ∉ twins.map Twin.number → ∀ twin ∈ twins, stranger.family ≠ twin.right.family

namespace Alongside

variable {twins : List Twin} {twin : Twin} {table : Table} {nextWorld nextMade : World}
  {left right : Context} {number : Nat}

theorem known (alongside : Alongside twins world made) (coherent : Coherent table world)
    (coherentMade : Coherent table made) (among : twin ∈ twins) :
    twin.left.table = table ∧ twin.left.family < world.registry.families.length ∧
      twin.right.table = table ∧ twin.right.family < made.registry.families.length := by
  have present : twin.left ∈ world.contexts := by
    rw [alongside.contexts]
    exact List.mem_map_of_mem among
  have presentMade := List.mem_of_getElem? (alongside.numbered twin among)
  exact ⟨coherent.tables _ present, coherent.families _ present,
    coherentMade.tables _ presentMade, coherentMade.families _ presentMade⟩

theorem unchanged (alongside : Alongside twins world made)
    (same : nextWorld.contexts = world.contexts) (sameMade : nextMade.contexts = made.contexts)
    (families : ∀ twin ∈ twins,
      nextWorld.family twin.left.family = nextMade.family twin.right.family) :
    Alongside twins nextWorld nextMade where
  contexts := same.trans alongside.contexts
  numbered := by
    rw [sameMade]
    exact alongside.numbered
  families := families
  kin := alongside.kin
  strangers := by
    rw [sameMade]
    exact alongside.strangers

theorem grown (alongside : Alongside twins world made)
    (contexts : nextWorld.contexts = world.contexts ++ [left])
    (contextsMade : nextMade.contexts = made.contexts ++ [right])
    (families : ∀ twin ∈ twins,
      nextWorld.family twin.left.family = nextMade.family twin.right.family)
    (own : nextWorld.family left.family = nextMade.family right.family)
    (kin : ∀ twin ∈ twins, twin.left.family = left.family ↔ twin.right.family = right.family)
    (strangers : ∀ number stranger, made.contexts[number]? = some stranger →
      number ∉ twins.map Twin.number → stranger.family ≠ right.family) :
    Alongside (twins ++ [⟨made.contexts.length, left, right⟩]) nextWorld nextMade where
  contexts := by rw [contexts, alongside.contexts, List.map_append, List.map_singleton]
  numbered := by
    rw [contextsMade, List.forall_mem_append, List.forall_mem_singleton]
    refine ⟨fun twin among => ?_, List.getElem?_concat_length⟩
    have found := alongside.numbered twin among
    rw [List.getElem?_append_left (List.getElem?_eq_some_iff.mp found).1]
    exact found
  families := List.forall_mem_append.mpr ⟨families, List.forall_mem_singleton.mpr own⟩
  kin := by
    simp only [List.forall_mem_append, List.forall_mem_singleton, iff_self, and_true]
    refine ⟨fun first among => ⟨alongside.kin first among, kin first among⟩, fun second among => ?_⟩
    rw [eq_comm, kin second among, eq_comm]
  strangers := by
    intro number stranger found outside
    rw [List.map_append, List.mem_append, not_or] at outside
    rw [contextsMade] at found
    obtain old | ⟨last, _⟩ := old_or_last found
    · exact List.forall_mem_append.mpr ⟨alongside.strangers number stranger old outside.1,
        List.forall_mem_singleton.mpr (strangers number stranger old outside.1)⟩
    · exact absurd (List.mem_singleton.mpr last) outside.2

theorem families_serve (alongside : Alongside twins world made) (coherent : Coherent table world)
    (coherentMade : Coherent table made) (among : twin ∈ twins)
    (on : world.contexts[number]? = some twin.left) (operation : Operation) {other : Twin}
    (present : other ∈ twins) :
    (world.serve ⟨number, operation⟩).2.family other.left.family =
      (made.serve ⟨twin.number, operation⟩).2.family other.right.family := by
  obtain ⟨_, known, _, knownMade⟩ := alongside.known coherent coherentMade present
  have same : (twin.left.family == other.left.family) =
      (twin.right.family == other.right.family) := by
    rw [Bool.eq_iff_iff, beq_iff_eq, beq_iff_eq]
    exact alongside.kin twin among other present
  rw [family_serve known, family_serve knownMade, needs_of_getElem? on,
    needs_of_getElem? (alongside.numbered twin among), same, alongside.families other present]

theorem serve_twin (alongside : Alongside twins world made) (coherent : Coherent table world)
    (coherentMade : Coherent table made) (among : twin ∈ twins)
    (on : world.contexts[number]? = some twin.left) (operation : Operation) :
    (world.serve ⟨number, operation⟩).1 = (made.serve ⟨twin.number, operation⟩).1 ∧
      ∃ born : List Twin, born.map Twin.number = List.range' made.contexts.length
          ((made.serve ⟨twin.number, operation⟩).2.contexts.length - made.contexts.length) ∧
        Alongside (twins ++ born) (world.serve ⟨number, operation⟩).2
          (made.serve ⟨twin.number, operation⟩).2 := by
  have onMade := alongside.numbered twin among
  have bounds (other : Twin) (present : other ∈ twins) :=
    alongside.known coherent coherentMade present
  obtain ⟨table, known, tableMade, knownMade⟩ := bounds twin among
  constructor
  · rw [serve_fst on known, serve_fst onMade knownMade, alongside.families twin among, table,
      tableMade]
  · have families (other : Twin) (present : other ∈ twins) :=
      alongside.families_serve coherent coherentMade among on operation present
    have served : (world.serve ⟨number, operation⟩).2 = (world.perform twin.left operation).2 :=
      congrArg Prod.snd (serve_of_getElem? on)
    have servedMade : (made.serve ⟨twin.number, operation⟩).2 =
        (made.perform twin.right operation).2 := congrArg Prod.snd (serve_of_getElem? onMade)
    obtain same | rfl | ⟨newcomer, founded⟩ := perform_cases operation
    · refine ⟨[], by simp [servedMade, same], ?_⟩
      rw [List.append_nil]
      exact alongside.unchanged (by rw [served, same]) (by rw [servedMade, same]) families
    · refine ⟨[⟨made.contexts.length, twin.left, twin.right⟩], ?_, ?_⟩
      · simp [servedMade, perform, welcome]
      · refine alongside.grown (by rw [served]; rfl) (by rw [servedMade]; rfl) families
          (families twin among) (fun other present => alongside.kin other present twin among) ?_
        exact fun number stranger found outside =>
          alongside.strangers number stranger found outside twin among
    · let left : Context := ⟨twin.left.table, world.registry.families.length⟩
      let right : Context := ⟨twin.right.table, made.registry.families.length⟩
      refine ⟨[⟨made.contexts.length, left, right⟩], ?_, ?_⟩
      · simp [servedMade, founded, welcome]
      · refine alongside.grown (by rw [served, founded]; rfl) (by rw [servedMade, founded]; rfl)
          families ?_ (fun other present => ?_) fun number stranger found _ same => ?_
        · rw [served, servedMade, founded, founded, family_welcome_enrol, family_welcome_enrol]
        · obtain ⟨_, known, _, knownMade⟩ := bounds other present
          exact iff_of_false (Nat.ne_of_lt known) (Nat.ne_of_lt knownMade)
        · exact Nat.ne_of_lt (coherentMade.families stranger (List.mem_of_getElem? found)) same

theorem serve_stranger (alongside : Alongside twins world made) (coherent : Coherent table world)
    (coherentMade : Coherent table made) {request : Request}
    (strange : request.on ∉ twins.map Twin.number) :
    Alongside twins world (made.serve request).2 := by
  have bounds (twin : Twin) (present : twin ∈ twins) :
      twin.right.family < made.registry.families.length :=
    (alongside.known coherent coherentMade present).2.2.2
  refine ⟨alongside.contexts, fun twin among => ?_, fun twin among => ?_, alongside.kin, ?_⟩
  · have found := alongside.numbered twin among
    obtain ⟨more, longer⟩ := (grows_serve made request).1
    rw [← longer, List.getElem?_append_left (List.getElem?_eq_some_iff.mp found).1]
    exact found
  · rw [alongside.families twin among, family_serve (bounds twin among)]
    rcases Option.eq_none_or_eq_some made.contexts[request.on]? with on | ⟨stranger, on⟩
    · simp [needs, on]
    · rw [needs_of_getElem? on]
      simp [alongside.strangers request.on stranger on strange twin among]
  · intro number stranger found outside twin among
    obtain same | ⟨newcomer, longer, own⟩ := contexts_serve made request
    · rw [same] at found
      exact alongside.strangers number stranger found outside twin among
    · rw [longer] at found
      obtain old | ⟨_, rfl⟩ := old_or_last found
      · exact alongside.strangers number stranger old outside twin among
      · rcases own with on | fresh
        · exact alongside.strangers request.on stranger on strange twin among
        · rw [fresh]
          exact Nat.ne_of_gt (bounds twin among)

/-- The part of the history that is about twins and what is made from them is a history of the
other world. -/
theorem account_eq (alongside : Alongside twins world made) (coherent : Coherent table world)
    (coherentMade : Coherent table made) (later : List Request) :
    let account := made.account (twins.map Twin.number) later
    account = world.transcript (account.map Prod.fst) := by
  induction later generalizing twins world made with
  | nil => rfl
  | cons request later ih =>
      simp only [account]
      cases asked : (twins.map Twin.number).idxOf? request.on with
      | none =>
          have strange := List.idxOf?_eq_none_iff.mp asked
          have next := alongside.serve_stranger coherent coherentMade strange
          exact ih next coherent (coherentMade.serve request)
      | some number =>
          obtain ⟨bound, same, _⟩ := List.idxOf?_eq_some_iff.mp asked
          rw [List.length_map] at bound
          rw [List.getElem_map] at same
          have on : world.contexts[number]? = some twins[number].left := by
            simp [alongside.contexts, bound]
          obtain ⟨outcome, born, numbers, next⟩ := alongside.serve_twin coherent coherentMade
            (List.getElem_mem bound) on request.operation
          rw [same] at outcome numbers next
          have rest := ih next (coherent.serve _) (coherentMade.serve _)
          rw [List.map_append, numbers] at rest
          simp only [List.map_cons, transcript, outcome]
          exact congrArg _ rest

end Alongside

end Apart

section Run

@[simp] theorem after_cons (world : World) (request : Request) (later : List Request) :
    world.after (request :: later) = (world.serve request).2.after later := rfl

theorem family_after {holds : Family → Prop}
    (kept : ∀ family, holds family → holds family.prepare.2)
    (known : place < world.registry.families.length) (now : holds (world.family place))
    (later : List Request) : holds ((world.after later).family place) := by
  induction later generalizing world with
  | nil => exact now
  | cons request later ih =>
      apply ih
      · exact Nat.lt_of_lt_of_le known (grows_serve world request).2
      · rw [family_serve known]
        split
        · exact kept _ now
        · exact now

theorem calls_after {source : Source} (known : place < world.registry.families.length)
    (attached : (world.family place).source? = some source) (later : List Request) :
    ((world.after later).family place).calls =
      (world.family place).calls + world.askings place later := by
  induction later generalizing world with
  | nil => rfl
  | cons request later ih =>
      have next := family_serve known request
      have length := Nat.lt_of_lt_of_le known (grows_serve world request).2
      rw [after_cons, askings]
      by_cases needed : world.needs place request = true
      · rw [if_pos needed] at next
        have calls := Family.calls_prepare attached
        have rest := ih length (by rw [next, Family.source?_prepare, attached])
        rw [next, calls] at rest
        simp only [needed, true_and, cell]
        omega
      · have idle : ¬(world.needs place request = true ∧ world.cell place = none) :=
          fun asking => needed asking.1
        rw [if_neg needed] at next
        have rest := ih length (by rw [next, attached])
        rw [next] at rest
        rw [if_neg idle]
        omega

theorem cell_after {aliases : Aliases} (published : world.cell place = some aliases)
    (later : List Request) : (world.after later).cell place = some aliases := by
  have kept (family : Family) (holding : family.published? = some aliases) :
      family.prepare.2.published? = some aliases := by
    rw [Family.prepare_of_published holding]
    exact holding
  by_cases known : place < world.registry.families.length
  · exact family_after kept known published later
  · simp [cell, family, Nat.le_of_not_lt known] at published

theorem describe_after {aliases : Aliases} (published : world.cell context.family = some aliases)
    (later : List Request) :
    (world.after later).registry.describe context = world.registry.describe context := by
  have known : context.family < world.registry.families.length := by
    refine Nat.lt_of_not_le fun beyond => ?_
    simp [cell, family, beyond] at published
  have kept (family : Family)
      (same : family.source? = (world.registry.family context).source?) :
      family.prepare.2.source? = (world.registry.family context).source? :=
    (Family.source?_prepare family).trans same
  apply Registry.describe_congr
  · exact @family_after world context.family _ kept known rfl later
  · exact (cell_after published later).trans published.symm

theorem calls_append (front back : List Family) :
    ({ families := front ++ back } : Registry).calls =
      ({ families := front } : Registry).calls ++ ({ families := back } : Registry).calls :=
  List.filterMap_append

theorem calls_set {families : List Family} (known : place < families.length) (family : Family) :
    ({ families := families.set place family } : Registry).calls =
      ({ families := families.take place } : Registry).calls ++
        (({ families := [family] } : Registry).calls ++
          ({ families := families.drop (place + 1) } : Registry).calls) := by
  rw [List.set_eq_take_append_cons_drop, if_pos known, calls_append, ← List.singleton_append,
    calls_append]

theorem sum_calls_prepare_alone (family : Family) :
    ({ families := [family.prepare.2] } : Registry).calls.sum ≤
      ({ families := [family] } : Registry).calls.sum + 1 := by
  obtain ⟨_, _, prepared⟩ | ⟨_, ⟨alone, prepared⟩ | ⟨_, attached, prepared⟩⟩ :=
    family.prepare_cases
  · rw [prepared]
    exact Nat.le_succ _
  · simp [prepared, Registry.calls, alone]
  · simp [prepared, Registry.calls, attached]

theorem sum_calls_prepare (registry : Registry) (context : Context) :
    (registry.prepare context).2.calls.sum ≤ registry.calls.sum + 1 := by
  obtain ⟨families⟩ := registry
  change ({ families := families.set context.family (families.getD context.family {}).prepare.2 } :
    Registry).calls.sum ≤ _
  by_cases known : context.family < families.length
  · have family : families.getD context.family {} = families[context.family] := by simp [known]
    have before := calls_set known families[context.family]
    have step := sum_calls_prepare_alone families[context.family]
    rw [List.set_getElem_self] at before
    rw [family, calls_set known, before]
    simp only [List.sum_append_nat]
    omega
  · rw [List.set_eq_of_length_le (Nat.le_of_not_lt known)]
    exact Nat.le_succ _

theorem sum_calls_serve (world : World) (request : Request) :
    (world.serve request).2.registry.calls.sum ≤
      world.registry.calls.sum + if request.operation.loads then 1 else 0 := by
  rcases Option.eq_none_or_eq_some world.contexts[request.on]? with absent | ⟨context, on⟩
  · rw [serve, absent]
    exact Nat.le_add_right _ _
  · rw [serve_of_getElem? on]
    cases request.operation with
    | prepare => exact sum_calls_prepare world.registry context
    | run text mode =>
        rw [perform, Registry.run_eq]
        exact sum_calls_prepare world.registry context
    | ask question => exact Nat.le_refl _
    | clone => exact Nat.le_refl _
    | withAliases aliases =>
        simp [perform, welcome, Registry.withAliases, Registry.enrol, Registry.calls,
          Family.ofAliases, Operation.loads]
    | withSource source =>
        simp [perform, welcome, Registry.withSource, Registry.enrol, Registry.calls,
          Family.ofSource, Operation.loads]

/-- The sources together are asked no more than once for each request that needs aliases. -/
theorem sum_calls_after (history : List Request) :
    (world.after history).registry.calls.sum ≤
      world.registry.calls.sum + (history.filter (·.operation.loads)).length := by
  induction history generalizing world with
  | nil => exact Nat.le_refl _
  | cons request later ih =>
      have step := sum_calls_serve world request
      have rest := @ih (world.serve request).2
      have count : ((request :: later).filter (·.operation.loads)).length =
          (if request.operation.loads then 1 else 0)
            + (later.filter (·.operation.loads)).length := by
        cases loads : request.operation.loads <;> simp [loads, Nat.add_comm]
      rw [after_cons, count]
      omega

end Run

/-- One set of aliases is published in each family, and nothing else is heard of its source. -/
structure KeepsSnapshots (table : Table) (world : World) : Prop where
  permanent : ∀ place aliases, world.cell place = some aliases →
    ∀ later, (world.after later).cell place = some aliases
  shared : ∀ place aliases, world.cell place = some aliases →
    ∀ later number context, (world.after later).contexts[number]? = some context →
      context.family = place → ∀ question,
        ((world.after later).serve ⟨number, .ask question⟩).1 =
          some (({ table, aliases } : Fields).tell question)
  cloned : ∀ number context, world.contexts[number]? = some context →
    (world.serve ⟨number, .clone⟩).2 = { world with contexts := world.contexts ++ [context] }
  fixed : ∀ number context, world.contexts[number]? = some context → ∀ aliases,
    let made := (world.serve ⟨number, .withAliases aliases⟩).2
    let place := world.registry.families.length
    made.contexts = world.contexts ++ [{ table, family := place }] ∧ made.cell place = some aliases
  asked : ∀ number context, world.contexts[number]? = some context → ∀ source,
    let made := (world.serve ⟨number, .withSource source⟩).2
    let place := world.registry.families.length
    made.contexts = world.contexts ++ [{ table, family := place }] ∧
      ∀ later, ((made.after later).family place).calls = made.askings place later ∧
        ((made.after later).family place).Heard source
  failed : ∀ number context, world.contexts[number]? = some context → ∀ failure,
    ((world.serve ⟨number, .prepare⟩).1 = some (.prepared (.error failure)) ↔
      (world.family context.family).Refuses failure) ∧
    ((world.family context.family).Refuses failure →
      (∀ text mode, (world.serve ⟨number, .run text mode⟩).1 = some (.answered (.error failure))) ∧
      ∀ operation place, place < world.registry.families.length →
        (world.serve ⟨number, operation⟩).2.cell place = world.cell place)
  apart : ∀ number, number < world.contexts.length → ∀ operation, operation.founds = true →
    ∀ later, let made := (world.serve ⟨number, operation⟩).2
      let account := made.account (List.range world.contexts.length) later
      account = world.transcript (account.map Prod.fst)
  empty : ∀ number context, world.contexts[number]? = some context →
    (world.family context.family).source? = none → world.cell context.family = none →
      ∀ operation, operation.loads = true →
        (world.serve ⟨number, operation⟩).2.cell context.family = some []

section Coherent

variable {table : Table}

theorem Coherent.known (coherent : Coherent table world) {number : Nat}
    (on : world.contexts[number]? = some context) :
    context.table = table ∧ context.family < world.registry.families.length := by
  have present := List.mem_of_getElem? on
  exact ⟨coherent.tables context present, coherent.families context present⟩

theorem Coherent.shared (coherent : Coherent table world) {aliases : Aliases} {number : Nat}
    (on : world.contexts[number]? = some context)
    (published : world.cell context.family = some aliases) (question : Question) :
    (world.serve ⟨number, .ask question⟩).1 =
      some (({ table, aliases } : Fields).tell question) := by
  obtain ⟨tables, known⟩ := coherent.known on
  rw [cell] at published
  rw [serve_fst on known, Family.outcome, published, tables, Option.getD_some]

theorem heard_after {made : World} {source : Source} (known : place < made.registry.families.length)
    (attached : made.family place = Family.ofSource source) (later : List Request) :
    ((made.after later).family place).calls = made.askings place later ∧
      ((made.after later).family place).Heard source := by
  have heard : (made.family place).Heard source := by
    rw [attached]
    exact Family.heard_ofSource source
  constructor
  · rw [calls_after known heard.attached, attached]
    exact Nat.zero_add _
  · exact family_after (fun _ => Family.Heard.prepare) known heard later

theorem Coherent.prepare_error_iff (coherent : Coherent table world) {number : Nat}
    (on : world.contexts[number]? = some context) {failure : Failure} :
    (world.serve ⟨number, .prepare⟩).1 = some (.prepared (.error failure)) ↔
      (world.family context.family).Refuses failure := by
  rw [serve_fst on (coherent.known on).2, ← Family.prepare_eq_error_iff, Family.outcome,
    Option.some.injEq, Outcome.prepared.injEq]

theorem Coherent.run_of_refuses (coherent : Coherent table world) {number : Nat}
    (on : world.contexts[number]? = some context) {failure : Failure}
    (refuses : (world.family context.family).Refuses failure) (text : String) (mode : Mode) :
    (world.serve ⟨number, .run text mode⟩).1 = some (.answered (.error failure)) := by
  rw [serve_fst on (coherent.known on).2, Family.outcome, Family.prepare_eq_error_iff.mpr refuses]
  rfl

theorem cell_serve_of_refuses {number : Nat} (on : world.contexts[number]? = some context)
    {failure : Failure} (refuses : (world.family context.family).Refuses failure)
    (operation : Operation) (known : place < world.registry.families.length) :
    (world.serve ⟨number, operation⟩).2.cell place = world.cell place := by
  rw [cell, cell, family_serve known]
  split
  · rename_i needed
    rw [needs_of_getElem? on, Bool.and_eq_true, beq_iff_eq] at needed
    obtain ⟨_, own⟩ := needed
    subst place
    rw [Family.published?_prepare, Family.prepare_eq_error_iff.mpr refuses, refuses.1]
    rfl
  · rfl

theorem Coherent.alongside_enrol (coherent : Coherent table world) (newcomer : Family) :
    ∃ twins : List Twin, twins.map Twin.number = List.range world.contexts.length ∧
      Alongside twins world (world.welcome (world.registry.enrol table newcomer)) := by
  let twins := world.contexts.zipIdx.map fun entry => (⟨entry.2, entry.1, entry.1⟩ : Twin)
  have twin_of_mem {twin : Twin} (among : twin ∈ twins) :
      twin.right = twin.left ∧ world.contexts[twin.number]? = some twin.left := by
    obtain ⟨entry, present, rfl⟩ := List.mem_map.mp among
    exact ⟨rfl, List.mem_zipIdx_iff_getElem?.mp present⟩
  have known {twin : Twin} (among : twin ∈ twins) :
      twin.left.family < world.registry.families.length :=
    coherent.families _ (List.mem_of_getElem? (twin_of_mem among).2)
  have numbers : twins.map Twin.number = List.range world.contexts.length := by
    simp only [twins, List.map_map, List.range_eq_range']
    exact List.zipIdx_map_snd 0 world.contexts
  refine ⟨twins, numbers, ?_, fun twin among => ?_, fun twin among => ?_, ?_, ?_⟩
  · simp only [twins, List.map_map]
    exact (List.zipIdx_map_fst 0 world.contexts).symm
  · obtain ⟨same, found⟩ := twin_of_mem among
    rw [same, welcome, List.getElem?_append_left (List.getElem?_eq_some_iff.mp found).1]
    exact found
  · rw [(twin_of_mem among).1]
    simp [World.family, welcome, Registry.enrol, List.getElem?_append_left (known among)]
  · intro first among second amongToo
    rw [(twin_of_mem among).1, (twin_of_mem amongToo).1]
  · intro number stranger found outside twin among
    obtain old | ⟨_, rfl⟩ := old_or_last found
    · rw [numbers, List.mem_range] at outside
      exact absurd (List.getElem?_eq_some_iff.mp old).1 outside
    · rw [(twin_of_mem among).1]
      exact Nat.ne_of_gt (known among)

theorem Coherent.apart (coherent : Coherent table world) {number : Nat}
    (bound : number < world.contexts.length) {operation : Operation}
    (founds : operation.founds = true) :
    ∃ twins : List Twin, twins.map Twin.number = List.range world.contexts.length ∧
      Alongside twins world (world.serve ⟨number, operation⟩).2 := by
  obtain ⟨absent, _⟩ | ⟨context, on, moves⟩ := serve_cases world ⟨number, operation⟩
  · have beyond : world.contexts.length ≤ number := List.getElem?_eq_none_iff.mp absent
    omega
  · have tables := (coherent.known on).1
    generalize (world.serve ⟨number, operation⟩).2 = made at moves
    cases moves with
    | loaded loads => simp [loads_of_founds founds] at loads
    | told => cases founds
    | cloned => cases founds
    | founded newcomer =>
        rw [tables]
        exact coherent.alongside_enrol newcomer

theorem Coherent.empty (coherent : Coherent table world) {number : Nat}
    (on : world.contexts[number]? = some context)
    (alone : (world.family context.family).source? = none)
    (empty : world.cell context.family = none) {operation : Operation}
    (loads : operation.loads = true) :
    (world.serve ⟨number, operation⟩).2.cell context.family = some [] := by
  rw [cell, family_serve (coherent.known on).2, needs_of_getElem? on]
  simp [loads, Family.prepare_of_unattached empty alone]

theorem Coherent.keepsSnapshots (coherent : Coherent table world) :
    KeepsSnapshots table world where
  permanent := fun place aliases => cell_after
  shared := by
    intro place aliases published later number context on own
    subst place
    exact (coherent.after later).shared on (cell_after published later)
  cloned := fun number context on => congrArg Prod.snd (serve_of_getElem? on)
  fixed := by
    intro number context on aliases made place
    have served : made = world.welcome (world.registry.withAliases context aliases) :=
      congrArg Prod.snd (serve_of_getElem? on)
    constructor
    · rw [served, ← (coherent.known on).1]
      rfl
    · rw [served, cell, Registry.withAliases, family_welcome_enrol]
      rfl
  asked := by
    intro number context on source made place
    have served : made = world.welcome (world.registry.withSource context source) :=
      congrArg Prod.snd (serve_of_getElem? on)
    constructor
    · rw [served, ← (coherent.known on).1]
      rfl
    · apply heard_after
      · simp [served, place, welcome, Registry.withSource, Registry.enrol]
      · rw [served, Registry.withSource, family_welcome_enrol]
  failed := by
    intro number context on failure
    refine ⟨coherent.prepare_error_iff on, fun refuses => ⟨coherent.run_of_refuses on refuses, ?_⟩⟩
    intro operation place known
    exact cell_serve_of_refuses on refuses operation known
  apart := by
    intro number bound operation founds later
    obtain ⟨twins, numbers, alongside⟩ := coherent.apart bound founds
    have same := alongside.account_eq coherent (coherent.serve ⟨number, operation⟩) later
    rwa [numbers] at same
  empty := fun number context on alone empty operation => coherent.empty on alone empty

end Coherent

/-- Whatever has been asked of a new context and of the contexts made from it. -/
theorem keepsSnapshots_after (table : Table) (history : List Request) :
    KeepsSnapshots table ((start table).after history) :=
  ((coherent_start table).after history).keepsSnapshots

/-- A filter that does not parse has the aliases loaded all the same. -/
example :
    let source := Source.ofList [.error (.aliases "unavailable"), .ok [("state", "status")]]
    let world := (start Table.standard).after [⟨0, .withSource source⟩, ⟨1, .clone⟩,
      ⟨1, .prepare⟩, ⟨2, .run "(" .candidates⟩, ⟨1, .prepare⟩]
    (world.family 1).calls = 2 ∧
      (world.serve ⟨1, .ask (.resolve "state")⟩).1 = some (.name "status") := by
  constructor <;> cbv

end World

end ScopedFilter
