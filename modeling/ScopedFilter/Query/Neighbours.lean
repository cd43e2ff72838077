import ScopedFilter.Query.Locality

/-!
Which kinds may stand next to one another in what a derivation uses up. A clause is introduced by
what joins, negates, opens or names a field, or it starts with a kind that needs no introduction.
Main statement: `reaches_of_derives`.
-/

namespace ScopedFilter.Grammar

/-- The kinds after which a clause or a value is still to come. -/
inductive Introduces : Kind → Prop
  | and : Introduces .and
  | or : Introduces .or
  | not : Introduces .not
  | minus : Introduces .minus
  | plus : Introduces .plus
  | bang : Introduces .bang
  | colon : Introduces .colon
  | leftParen : Introduces .leftParen

inductive Ends : Kind → Prop
  | word {raw} : Ends (.word raw)
  | phrase {raw} : Ends (.phrase raw)
  | upTo : Ends .upTo
  | rightParen : Ends .rightParen
  | rightBracket : Ends .rightBracket
  | rightBrace : Ends .rightBrace

inductive Continues : Kind → Prop
  | and : Continues .and
  | or : Continues .or
  | colon : Continues .colon
  | rightParen : Continues .rightParen
  | rightBracket : Continues .rightBracket
  | rightBrace : Continues .rightBrace

inductive Follows : Kind → Kind → Prop
  | clause {left right} : StartsClause right → Follows left right
  | range {left right inclusive} : Introduces left → Opens right inclusive → Follows left right
  | continued {left right} : Ends left → Continues right → Follows left right

/-- A way from the kind that was read last, with `input` ahead, to a later one with `rest` ahead. -/
inductive Path : Kind → List Kind → Kind → List Kind → Prop
  | done {kind rest} : Path kind rest kind rest
  | step {kind next last input rest} : Follows kind next → Path next input last rest →
      Path kind (next :: input) last rest

theorem Path.trans {first middle last : Kind} {input between rest : List Kind}
    (front : Path first input middle between) (back : Path middle between last rest) :
    Path first input last rest := by
  induction front with
  | done => exact back
  | step follows _ ih => exact .step follows (ih back)

theorem Negates.introduces {sign : Kind} (negates : Negates sign) : Introduces sign := by
  cases negates <;> constructor

theorem Negates.startsClause {sign : Kind} (negates : Negates sign) : StartsClause sign := by
  cases negates <;> constructor

theorem Closes.ends {closing : Kind} {inclusive : Bool} (closes : Closes closing inclusive) :
    Ends closing := by
  cases closes <;> constructor

theorem Closes.continues {closing : Kind} {inclusive : Bool} (closes : Closes closing inclusive) :
    Continues closing := by
  cases closes <;> constructor

def Ready (kind : Kind) (input : List Kind) : Prop :=
  Introduces kind ∨ ∃ first later, input = first :: later ∧ StartsClause first

def Reaches (kind : Kind) (input rest : List Kind) : Prop :=
  ∃ last, Ends last ∧ Path kind input last rest

namespace Reaches

variable {kind next : Kind} {input middle rest : List Kind}

theorem single (follows : Follows kind next) (ends : Ends next) :
    Reaches kind (next :: rest) rest :=
  ⟨next, ends, .step follows .done⟩

theorem past (follows : Follows kind next) (found : Reaches next input rest) :
    Reaches kind (next :: input) rest := by
  obtain ⟨last, ends, path⟩ := found
  exact ⟨last, ends, .step follows path⟩

theorem andThen (found : Reaches kind input middle)
    (later : ∀ {last}, Ends last → Reaches last middle rest) : Reaches kind input rest := by
  obtain ⟨_, middleEnds, front⟩ := found
  obtain ⟨last, ends, back⟩ := later middleEnds
  exact ⟨last, ends, front.trans back⟩

theorem closed (found : Reaches kind input (next :: rest)) (continues : Continues next)
    (ends : Ends next) : Reaches kind input rest :=
  found.andThen fun before => .single (.continued before continues) ends

theorem joined (found : Reaches kind input (next :: middle)) (continues : Continues next)
    (later : Reaches next middle rest) : Reaches kind input rest :=
  found.andThen fun before => .past (.continued before continues) later

end Reaches

variable {kind : Kind} {input rest : List Kind}

theorem reaches_of_bound {text : String} (derived : Bound input text rest) :
    Reaches kind input rest := by
  cases derived with
  | word _ => exact .single (.clause .word) .word
  | phrase _ => exact .single (.clause .phrase) .phrase
  | minus _ => exact .past (.clause .minus) (.single (.clause .word) .word)
  | plus _ => exact .past (.clause .plus) (.single (.clause .word) .word)

theorem reaches_of_range {name : String} {filter : Filter}
    (derived : Range name input filter rest) (ready : Ready kind input) :
    Reaches kind input rest := by
  cases derived with
  | @range opening closing input _ _ _ _ _ _ opens low high closes =>
      have bounds : Reaches opening input (closing :: rest) :=
        (reaches_of_bound low).andThen fun _ => .past (.clause .upTo) (reaches_of_bound high)
      have inside := bounds.closed closes.continues closes.ends
      rcases ready with introduces | ⟨_, _, same, starts⟩
      · exact .past (.range introduces opens) inside
      · cases same
        exact .past (.clause starts) inside

theorem reaches_of_derives {budget : Nat} {part : Part} (derived : Derives budget part input rest)
    (ready : Ready kind input) : Reaches kind input rest := by
  induction derived generalizing kind with
  | negation sign _ ih => exact .past (.clause sign.startsClause) (ih (.inl sign.introduces))
  | affirmation _ ih => exact .past (.clause .plus) (ih (.inl .plus))
  | group _ _ ih | groupValue _ _ ih =>
      exact .past (.clause .leftParen) ((ih (.inl .leftParen)).closed .rightParen .rightParen)
  | fielded _ _ ih =>
      exact .past (.clause .word) (.past (.continued .word .colon) (ih (.inl .colon)))
  | word _ _ | wordValue _ => exact .single (.clause .word) .word
  | upTo | upToValue => exact .single (.clause .upTo) .upTo
  | phrase _ | phraseValue _ => exact .single (.clause .phrase) .phrase
  | range found | rangeValue found => exact reaches_of_range found ready
  | lastConjunct _ ih | lastDisjunct _ _ ih => exact ih ready
  | joinedConjunct _ _ first later => exact (first ready).joined .and (later (.inl .and))
  | adjacentConjunct _ starts _ first later =>
      exact (first ready).andThen fun _ => later (.inr ⟨_, _, rfl, starts⟩)
  | joinedDisjunct _ _ _ first later => exact (first ready).joined .or (later (.inl .or))

end ScopedFilter.Grammar
