import ScopedFilter.Query.Token

/-!
Blank characters, and how words and phrases are spelled. Blanks are the 25 characters with the
Unicode property White_Space; they separate words and are cut from both ends of a line. A backslash
takes the special meaning from the character after it. `spellWord` and `spellPhrase` write a value
so that reading gives one word or phrase back whose `plain` form is that value.
-/

namespace ScopedFilter.Text

/-- First and last code point of every run of blank characters, in order. -/
def blankRuns : List (Nat × Nat) :=
  [(0x0009, 0x000D), (0x0020, 0x0020), (0x0085, 0x0085), (0x00A0, 0x00A0), (0x1680, 0x1680),
   (0x2000, 0x200A), (0x2028, 0x2029), (0x202F, 0x202F), (0x205F, 0x205F), (0x3000, 0x3000)]

def isBlank (char : Char) : Bool :=
  blankRuns.any fun (first, last) => first ≤ char.toNat && char.toNat ≤ last

def trimmed (text : List Char) : List Char :=
  ((text.dropWhile isBlank).reverse.dropWhile isBlank).reverse

theorem ne_backslash_of_isBlank {char : Char} (blank : isBlank char = true) : char ≠ '\\' := by
  rintro rfl
  exact absurd blank (by decide)

def isDelimiter (char : Char) : Bool :=
  char = '"' || (Kind.punctuation? char).isSome

def endsWord (char : Char) : Bool := isBlank char || isDelimiter char

/-- The characters with a meaning of their own at the head of a word only. -/
def isLeading (char : Char) : Bool :=
  (Kind.sign? char).isSome || char = '<' || char = '>'

def plain (escaped : Bool) : List Char → List Char
  | [] => []
  | char :: rest =>
      if !escaped && char = '\\' then plain true rest else char :: plain false rest

def unescaped (raw : String) : String := String.ofList (plain false raw.toList)

def guarded (needsGuard : Char → Bool) (char : Char) : List Char :=
  if needsGuard char then ['\\', char] else [char]

def breaksWord (char : Char) : Bool := char = '\\' || endsWord char

def breaksPhrase (char : Char) : Bool := char = '\\' || char = '"'

/-- A bare word with the given value. Nothing but an empty phrase can stand for the empty value. -/
def spellWord : List Char → List Char
  | [] => ['"', '"']
  | first :: rest =>
      (if (Kind.keyword? (first :: rest)).isSome then ['\\'] else [])
        ++ guarded (fun char => breaksWord char || isLeading char) first
        ++ rest.flatMap (guarded breaksWord)

def spellPhrase (value : List Char) : List Char :=
  '"' :: value.flatMap (guarded breaksPhrase) ++ ['"']

theorem plain_append_guarded (needsGuard : Char → Bool) (guardsBackslash : needsGuard '\\' = true)
    (value rest : List Char) :
    plain false (value.flatMap (guarded needsGuard) ++ rest) = value ++ plain false rest := by
  induction value with
  | nil => rfl
  | cons char value ih =>
      rw [List.flatMap_cons, List.append_assoc, guarded]
      split
      · simp [plain, ih]
      · rename_i unguarded
        have other : char ≠ '\\' := by
          rintro rfl
          exact unguarded guardsBackslash
        simp [plain, other, ih]

theorem spellWord_cons (first : Char) (rest : List Char) :
    spellWord (first :: rest) = '\\' :: first :: rest.flatMap (guarded breaksWord) ∨
      breaksWord first = false ∧ isLeading first = false ∧ Kind.keyword? (first :: rest) = none ∧
        spellWord (first :: rest) = first :: rest.flatMap (guarded breaksWord) := by
  simp only [spellWord]
  split
  · rename_i keyword
    have letter : first = 'A' ∨ first = '&' ∨ first = 'O' ∨ first = '|' ∨ first = 'N'
        ∨ first = 'T' := by
      unfold Kind.keyword? at keyword
      split at keyword <;> simp_all
    left
    rcases letter with rfl | rfl | rfl | rfl | rfl | rfl <;> rfl
  · rename_i ordinary
    rw [Option.not_isSome_iff_eq_none] at ordinary
    rw [guarded]
    split
    · exact .inl rfl
    · rename_i harmless
      simp only [Bool.or_eq_true, not_or, Bool.not_eq_true] at harmless
      exact .inr ⟨harmless.1, harmless.2, ordinary, rfl⟩

theorem plain_spellWord (value : List Char) (nonempty : value ≠ []) :
    plain false (spellWord value) = value := by
  cases value with
  | nil => exact absurd rfl nonempty
  | cons first rest =>
      have tail := plain_append_guarded breaksWord (by decide) rest []
      rw [List.append_nil] at tail
      rcases spellWord_cons first rest with spelled | ⟨harmless, _, _, spelled⟩
      · simp [spelled, plain, tail]
      · have other : first ≠ '\\' := by
          rintro rfl
          cases harmless
        simp [spelled, plain, other, tail]

end ScopedFilter.Text
