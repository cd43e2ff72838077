import Mathlib
import ScopedFilter.Proofs.ParsedFilter
import ScopedFilter.Query.Origin
import ScopedFilter.Stack.Answer
import ScopedFilter.Text.Wildcard

/-!
What becomes of wildcards. A text may take the meaning from a star or a question mark, by a
backslash or by quotes around a bound. The filter keeps the characters only, and they are written
bare. Main statement: `parse_keeps_wildcards_iff`.
-/

namespace ScopedFilter

open Grammar Text

namespace Leaf

def words : Leaf → List (List Char)
  | term _ value => [spellWord value.toList]
  | phrase _ _ => []
  | range _ low high _ => [spellWord low.toList, spellWord high.toList]

theorem words_withField (field : String) (leaf : Leaf) :
    (leaf.withField field).words = leaf.words := by
  cases leaf <;> rfl

theorem words_storeLeaf (fields : Fields) (leaf : Leaf) :
    (fields.storeLeaf leaf).words = leaf.words := by
  rw [Fields.storeLeaf]
  split
  · exact words_withField _ leaf
  · rfl

theorem infix_written_of_mem_words {leaf : Leaf} {word : List Char} (known : word ∈ leaf.words) :
    word <:+: leaf.written := by
  cases leaf with
  | term field value =>
      rw [List.mem_singleton.mp known]
      exact (List.suffix_append _ _).isInfix
  | phrase field text => cases known
  | range field low high inclusive =>
      have last {text more : List Char} : more <:+: text ++ more :=
        (List.suffix_append text more).isInfix
      have extended {text more : List Char} (inside : word <:+: text) : word <:+: text ++ more :=
        inside.trans (List.prefix_append text more).isInfix
      rw [written]
      rcases List.mem_cons.mp known with rfl | known
      · exact extended (extended (extended last))
      · obtain rfl := List.mem_singleton.mp known
        exact extended last

end Leaf

namespace Filter

theorem infix_intercalate {separator word : List Char} {words : List (List Char)}
    (known : word ∈ words) : word <:+: separator.intercalate words := by
  induction words with
  | nil => cases known
  | cons first rest ih =>
      cases rest with
      | nil =>
          rw [List.mem_singleton.mp known]
          simp
      | cons second more =>
          rw [List.intercalate_cons_cons]
          rcases List.mem_cons.mp known with rfl | later
          · rw [List.append_assoc]
            exact (List.prefix_append _ _).isInfix
          · exact (ih later).trans (List.suffix_append _ _).isInfix

theorem infix_enclosed (wrap : Bool) (text : List Char) : text <:+: enclosed wrap text := by
  unfold enclosed
  split
  · exact ⟨['('], [')'], rfl⟩
  · exact List.infix_refl text

theorem infix_written_of_mem_leaves (sentinels : Sentinels) {filter : Filter} {leaf : Leaf}
    (known : leaf ∈ filter.leaves) : leaf.written <:+: filter.written sentinels := by
  induction filter with
  | leaf test =>
      rw [leaves, List.mem_singleton] at known
      rw [known, written]
  | not child ih =>
      rw [leaves] at known
      rw [written]
      exact ((ih known).trans (infix_enclosed _ _)).trans (List.suffix_append _ _).isInfix
  | and members ih =>
      rw [leaves, List.mem_flatMap] at known
      obtain ⟨member, among, inside⟩ := known
      rw [written, if_neg (by simpa using List.ne_nil_of_mem among)]
      refine ((ih member among inside).trans (infix_enclosed member.isOr _)).trans ?_
      exact infix_intercalate (List.mem_map_of_mem among)
  | or members ih =>
      rw [leaves, List.mem_flatMap] at known
      obtain ⟨member, among, inside⟩ := known
      rw [written, if_neg (by simpa using List.ne_nil_of_mem among)]
      exact (ih member among inside).trans (infix_intercalate (List.mem_map_of_mem among))
  | group child ih =>
      rw [leaves] at known
      rw [written]
      exact (ih known).trans (infix_enclosed true _)
  | all | none =>
      rw [leaves] at known
      cases known

end Filter

namespace Origin

/-- The written word asks the store for the same as the word of the text did. A bound that was
quoted or given is not written as the star that stands for no bound. -/
def Kept : Origin → List Char → Prop
  | bare raw, word => SameWildcards raw.toList word
  | quoted _, word => word ≠ ['*']
  | omitted, word => word = ['*']

def Plain : Origin → Prop
  | bare raw => WildcardsBare raw.toList
  | quoted raw => unescaped raw ≠ "*"
  | omitted => True

theorem kept_bare_iff (raw : String) :
    (bare raw).Kept (spellWord (unescaped raw).toList) ↔ (bare raw).Plain := by
  rw [Kept, Plain, unescaped, String.toList_ofList]
  exact sameWildcards_spellWord_iff raw.toList

theorem kept_quoted_iff (raw : String) :
    (quoted raw).Kept (spellWord (unescaped raw).toList) ↔ (quoted raw).Plain := by
  rw [Kept, Plain, ne_eq, ne_eq, spellWord_eq_star_iff, ← String.toList_inj]
  rfl

theorem kept_omitted_iff : omitted.Kept (spellWord "*".toList) ↔ omitted.Plain :=
  iff_of_true (spellWord_eq_star_iff.mpr rfl) trivial

end Origin

namespace Grammar

theorem kept_iff_of_boundFrom {kinds : List Kind} {text : String} {origin : Origin}
    (found : BoundFrom kinds text origin) :
    origin.Kept (spellWord text.toList) ↔ origin.Plain := by
  have signed {sign : String} {raw : String} (mark : sign = "-" ∨ sign = "+") :
      sign ++ unescaped raw = unescaped (sign ++ raw) := by
    rw [← String.toList_inj]
    rcases mark with rfl | rfl <;> simp [unescaped, plain]
  cases found with
  | word => exact Origin.kept_bare_iff _
  | phrase => exact Origin.kept_quoted_iff _
  | minus =>
      rw [signed (.inl rfl)]
      exact Origin.kept_bare_iff _
  | plus =>
      rw [signed (.inr rfl)]
      exact Origin.kept_bare_iff _

theorem kept_iff_of_testFrom {kinds : List Kind} {leaf : Leaf} {origins : List Origin}
    (found : TestFrom kinds leaf origins) :
    List.Forall₂ (fun origin word => origin.Kept word ↔ origin.Plain) origins leaf.words := by
  have cut (bound : List Char) :
      String.ofList (plain false bound) = unescaped (String.ofList bound) := by
    rw [unescaped, String.toList_ofList]
  cases found with
  | term => exact .cons (Origin.kept_bare_iff _) .nil
  | upTo => exact .cons (Origin.kept_bare_iff "TO") .nil
  | phrase => exact .nil
  | lower _ =>
      rw [cut]
      exact .cons (Origin.kept_bare_iff _) (.cons Origin.kept_omitted_iff .nil)
  | upper _ =>
      rw [cut]
      exact .cons Origin.kept_omitted_iff (.cons (Origin.kept_bare_iff _) .nil)
  | range _ low high _ =>
      exact .cons (kept_iff_of_boundFrom low) (.cons (kept_iff_of_boundFrom high) .nil)

end Grammar

/-- All words of a text are accounted for. A word that is a value or a bound, and a quoted bound, is
written so that it means the same to the store just if no wildcard in it was to be taken
literally. -/
theorem Filter.parse_keeps_wildcards_iff {text : String} {filter : Filter}
    (parsed : Filter.parse text = .ok filter) :
    ∃ uses, Divided (Lexeme.kinds false text.toList) uses ∧ uses.map Prod.fst = filter.leaves ∧
      ∀ use ∈ uses,
        List.Forall₂ (fun origin word => origin.Kept word ↔ origin.Plain) use.2 use.1.words ∧
        (∀ word ∈ use.1.words, word <:+: use.1.written) ∧
        (∀ sentinels, use.1.written <:+: filter.written sentinels) ∧
        ∀ fields : Fields, (fields.storeLeaf use.1).words = use.1.words := by
  obtain ⟨members, derived, rfl⟩ := parse_eq_ok_iff.mp parsed
  obtain ⟨uses, divided, same⟩ := divided_of_derives derived
  rw [← leaves_joined_or] at same
  refine ⟨uses, divided, same, fun use known => ?_⟩
  obtain ⟨kinds, found⟩ := divided.exists_testFrom known
  have present : use.1 ∈ (joined or none members).leaves := by
    rw [← same]
    exact List.mem_map_of_mem known
  exact ⟨kept_iff_of_testFrom found, fun _ => Leaf.infix_written_of_mem_words,
    fun sentinels => infix_written_of_mem_leaves sentinels present,
    fun fields => Leaf.words_storeLeaf fields use.1⟩

theorem Filter.parse_keeps_wildcards_iff_mixed :
    let text := "title:a\\?b first:[\"*\" TO -5*] NOT count:>\\*"
    let tests : List Leaf := [.term (some "title") "a?b",
      .range "first" "*" "-5*" ⟨true, true⟩, .range "count" "*" "*" ⟨false, true⟩]
    ∃ filter, Filter.parse text = .ok filter ∧ filter.leaves = tests ∧
      ∃ uses, Divided (Lexeme.kinds false text.toList) uses ∧ uses.map Prod.fst = tests ∧
        ∀ use ∈ uses,
          List.Forall₂ (fun origin word => origin.Kept word ↔ origin.Plain) use.2 use.1.words := by
  intro text tests
  obtain ⟨filter, parsed, known⟩ : ∃ filter, Filter.parse text = .ok filter ∧
      filter.leaves = tests := ⟨_, by cbv, by cbv⟩
  obtain ⟨uses, divided, same, kept⟩ := parse_keeps_wildcards_iff parsed
  exact ⟨filter, parsed, known, uses, divided, same.trans known, fun use present =>
    (kept use present).1⟩

theorem Filter.literal_star_becomes_wildcard :
    let filter := Filter.leaf (.term (some "title") "*")
    Filter.parse "title:\\*" = .ok filter ∧
      (filter.inStore Engine.standard.fields).toText .standard = "title:*" ∧
      ¬SameWildcards "\\*".toList "*".toList := by
  intro filter
  refine ⟨by cbv, by cbv, fun same => ?_⟩
  have kept := (same 0 '*' true (by decide)).mp (by decide)
  exact absurd kept (by decide)

end ScopedFilter
