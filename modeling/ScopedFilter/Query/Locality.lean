import ScopedFilter.Query.Grammar

/-!
The kinds that a derivation uses up, and those that it leaves. What is left may be exchanged for
anything that does not start with a colon, which would turn a word before it into a field. Main
statements: `local_of_derives`, and `starts_of_derives` on the first kind that is used.
-/

namespace ScopedFilter.Grammar

/-- Kinds are used up before `rest`, and `form` holds of them whatever else may follow. -/
def Local (form : List Kind → List Kind → Prop) (input rest : List Kind) : Prop :=
  ∃ used, input = used ++ rest ∧ used ≠ [] ∧
    ∀ other, other.head? ≠ some .colon → form (used ++ other) other

namespace Local

variable {form later whole : List Kind → List Kind → Prop} {kind : Kind}
  {input middle rest : List Kind}

theorem suffix (found : Local form input rest) : rest <:+ input := by
  obtain ⟨used, rfl, _, _⟩ := found
  exact List.suffix_append used rest

theorem single (holds : ∀ other, other.head? ≠ some .colon → form (kind :: other) other) :
    Local form (kind :: rest) rest :=
  ⟨[kind], rfl, by simp, holds⟩

theorem imp (found : Local form input rest)
    (change : ∀ {unread left}, form unread left → whole unread left) : Local whole input rest := by
  obtain ⟨used, split, nonempty, holds⟩ := found
  exact ⟨used, split, nonempty, fun other free => change (holds other free)⟩

theorem past (found : Local form input rest)
    (change : ∀ {unread left}, form unread left → whole (kind :: unread) left) :
    Local whole (kind :: input) rest := by
  obtain ⟨used, rfl, _, holds⟩ := found
  exact ⟨kind :: used, rfl, by simp, fun other free => change (holds other free)⟩

theorem before (found : Local form input (kind :: rest)) (noColon : kind ≠ .colon)
    (change : ∀ {unread left}, form unread (kind :: left) → whole unread left) :
    Local whole input rest := by
  obtain ⟨used, rfl, _, holds⟩ := found
  refine ⟨used ++ [kind], by simp, by simp, ?_⟩
  intro other _
  rw [List.append_assoc]
  exact change (holds (kind :: other) (by simpa using noColon))

theorem joined (found : Local form input (kind :: middle)) (noColon : kind ≠ .colon)
    (more : Local later middle rest)
    (change : ∀ {unread between left}, form unread (kind :: between) → later between left →
      whole unread left) : Local whole input rest := by
  obtain ⟨used, rfl, _, holds⟩ := found
  obtain ⟨next, rfl, _, laterHolds⟩ := more
  refine ⟨used ++ kind :: next, by simp, by simp, ?_⟩
  intro other free
  rw [List.append_assoc]
  exact change (holds _ (by simpa using noColon)) (laterHolds other free)

theorem adjacent (found : Local form input (kind :: middle)) (noColon : kind ≠ .colon)
    (more : Local later (kind :: middle) rest)
    (change : ∀ {unread between left}, form unread (kind :: between) →
      later (kind :: between) left → whole unread left) : Local whole input rest := by
  obtain ⟨used, rfl, _, holds⟩ := found
  obtain ⟨next, split, nonempty, laterHolds⟩ := more
  obtain ⟨_, next, rfl⟩ := List.exists_cons_of_ne_nil nonempty
  obtain ⟨rfl, rfl⟩ := List.cons.inj split
  refine ⟨used ++ kind :: next, by simp, by simp, ?_⟩
  intro other free
  rw [List.append_assoc]
  exact change (holds _ (by simpa using noColon)) (laterHolds other free)

end Local

theorem StartsClause.ne_colon {kind : Kind} (starts : StartsClause kind) : kind ≠ .colon := by
  rintro rfl
  cases starts

variable {input rest : List Kind}

theorem local_of_bound {text : String} (derived : Bound input text rest) :
    Local (fun unread left => Bound unread text left) input rest := by
  cases derived with
  | word spells => exact .single fun _ _ => .word spells
  | phrase spells => exact .single fun _ _ => .phrase spells
  | minus spells => exact ⟨[_, _], rfl, by simp, fun _ _ => .minus spells⟩
  | plus spells => exact ⟨[_, _], rfl, by simp, fun _ _ => .plus spells⟩

theorem local_of_range {name : String} {filter : Filter} (derived : Range name input filter rest) :
    Local (fun unread left => Range name unread filter left) input rest := by
  cases derived with
  | @range _ closing _ _ _ low high _ _ opens lowBound highBound closes =>
      have noColon : closing ≠ .colon := by
        rintro rfl
        cases closes
      have bounds : Local (fun unread left => ∃ middle, Bound unread low (.upTo :: middle) ∧
          Bound middle high (closing :: left)) _ rest :=
        (local_of_bound lowBound).joined (by simp)
          ((local_of_bound highBound).before noColon fun bound => bound)
          fun first second => ⟨_, first, second⟩
      refine bounds.past fun found => ?_
      obtain ⟨_, first, second⟩ := found
      exact .range opens first second closes

theorem local_of_derives {budget : Nat} {part : Part} (derived : Derives budget part input rest) :
    Local (fun unread left => Derives budget part unread left) input rest := by
  induction derived with
  | negation sign _ inner => exact inner.past fun found => .negation sign found
  | affirmation _ inner => exact inner.past fun found => .affirmation found
  | group _ joins inner =>
      exact (inner.before (by simp) fun found => found).past fun found => .group found joins
  | fielded spells _ inner =>
      exact (inner.past fun found => .fielded spells found).past fun found => found
  | word _ spells => exact .single fun _ free => .word free spells
  | upTo => exact .single fun _ _ => .upTo
  | phrase spells => exact .single fun _ _ => .phrase spells
  | range found => exact (local_of_range found).imp fun found => .range found
  | wordValue meant => exact .single fun _ _ => .wordValue meant
  | upToValue => exact .single fun _ _ => .upToValue
  | phraseValue spells => exact .single fun _ _ => .phraseValue spells
  | groupValue _ joins inner =>
      exact (inner.before (by simp) fun found => found).past fun found => .groupValue found joins
  | rangeValue found => exact (local_of_range found).imp fun found => .rangeValue found
  | lastConjunct _ first => exact first.imp fun found => .lastConjunct found
  | joinedConjunct _ _ first later =>
      exact first.joined (by simp) later fun found more => .joinedConjunct found more
  | adjacentConjunct _ starts _ first later =>
      exact first.adjacent starts.ne_colon later fun found more =>
        .adjacentConjunct found starts more
  | lastDisjunct _ joins first => exact first.imp fun found => .lastDisjunct found joins
  | joinedDisjunct _ joins _ first later =>
      exact first.joined (by simp) later fun found more => .joinedDisjunct found joins more

def Part.Starts (kind : Kind) : Part → Prop
  | clause field _ | conjuncts field _ | disjuncts field _ =>
      StartsClause kind ∨ field ≠ none ∧ ∃ inclusive, Opens kind inclusive
  | value _ _ => True

theorem starts_of_derives {budget : Nat} {part : Part} {kind : Kind}
    (derived : Derives budget part (kind :: input) rest) : part.Starts kind := by
  generalize whole : kind :: input = read at derived
  induction derived generalizing kind input with
  | negation sign _ _ =>
      cases whole
      cases sign <;> exact .inl (by constructor)
  | affirmation _ _ => cases whole; exact .inl .plus
  | group _ _ _ => cases whole; exact .inl .leftParen
  | fielded _ _ _ => cases whole; exact .inl .word
  | word _ _ => cases whole; exact .inl .word
  | upTo => cases whole; exact .inl .upTo
  | phrase _ => cases whole; exact .inl .phrase
  | range found =>
      cases found with
      | range opens _ _ _ =>
          cases whole
          exact .inr ⟨by simp, _, opens⟩
  | lastConjunct _ ih => exact ih whole
  | joinedConjunct _ _ ih _ => exact ih whole
  | adjacentConjunct _ _ _ ih _ => exact ih whole
  | lastDisjunct _ _ ih => exact ih whole
  | joinedDisjunct _ _ _ ih _ => exact ih whole
  | _ => exact trivial

theorem unterminated_of_bound {text : String} (derived : Bound input text rest)
    (present : .unterminated ∈ input) : .unterminated ∈ rest := by
  cases derived <;> simpa using present

theorem unterminated_of_range {name : String} {filter : Filter}
    (derived : Range name input filter rest) (present : .unterminated ∈ input) :
    .unterminated ∈ rest := by
  obtain ⟨opens, low, high, closes⟩ := derived
  have later := (List.mem_cons.mp present).resolve_left (by cases opens <;> simp)
  have middle := unterminated_of_bound low later
  have last := unterminated_of_bound high ((List.mem_cons.mp middle).resolve_left (by simp))
  exact (List.mem_cons.mp last).resolve_left (by cases closes <;> simp)

theorem unterminated_of_derives {budget : Nat} {part : Part}
    (derived : Derives budget part input rest) (present : .unterminated ∈ input) :
    .unterminated ∈ rest := by
  induction derived with
  | negation sign _ ih =>
      apply ih
      cases sign <;> simpa using present
  | affirmation _ ih => exact ih (by simpa using present)
  | group _ _ ih => simpa using ih (by simpa using present)
  | fielded _ _ ih => exact ih (by simpa using present)
  | word _ _ => simpa using present
  | upTo => simpa using present
  | phrase _ => simpa using present
  | range found => exact unterminated_of_range found present
  | wordValue _ => simpa using present
  | upToValue => simpa using present
  | phraseValue _ => simpa using present
  | groupValue _ _ ih => simpa using ih (by simpa using present)
  | rangeValue found => exact unterminated_of_range found present
  | lastConjunct _ ih => exact ih present
  | joinedConjunct _ _ first later => exact later (by simpa using first present)
  | adjacentConjunct _ _ _ first later => exact later (first present)
  | lastDisjunct _ _ ih => exact ih present
  | joinedDisjunct _ _ _ first later => exact later (by simpa using first present)

end ScopedFilter.Grammar
