import ScopedFilter.Fields.ConfigText
import ScopedFilter.Proofs.WrittenJson

/-!
A configuration written as JSON text is read back unchanged. Main statement: `ofText_toText`.
-/

namespace ScopedFilter

namespace Json

theorem mapM_map_eq_some {α β : Type} {write : α → β} {read? : β → Option α}
    (back : ∀ value, read? (write value) = some value) (values : List α) :
    (values.map write).mapM read? = some values := by
  induction values with
  | nil => rfl
  | cons first rest ih =>
      rw [List.map_cons, List.mapM_cons, back, ih]
      rfl

theorem list?_array {α : Type} {toJson : α → JsonValue} {ofJson? : JsonValue → Option α}
    (back : ∀ value, ofJson? (toJson value) = some value) (values : List α) :
    list? ofJson? (.array (values.map toJson)) = some values :=
  mapM_map_eq_some back values

theorem slots?_object {names : List String} (slots : List (String × JsonValue))
    (known : ∀ slot ∈ slots, slot.1 ∈ names) (distinct : (slots.map Prod.fst).Nodup) :
    slots? names (.object (slots.map fun slot => (some slot.1, slot.2))) = some slots := by
  have kept : slots.filter (fun slot => slot.1 ∈ names) = slots := by
    rw [List.filter_eq_self]
    intro slot given
    simpa using known slot given
  have named := @mapM_map_eq_some _ _ (fun slot : String × JsonValue => (some slot.1, slot.2))
    (fun member => member.1.map fun text => (text, member.2)) (fun _ => rfl) slots
  rw [slots?, named, Option.bind_eq_bind, Option.bind_some, kept]
  exact if_pos distinct

theorem slot?_of_lookup {α : Type} {slots : List (String × JsonValue)} {name : String}
    {written : JsonValue} {value : α} {default? : Option α} {content? : JsonValue → Option α}
    (given : slots.lookup name = some written) (read : content? written = some value) :
    slot? slots name default? content? = some value := by
  rw [slot?, given]
  exact read

end Json

open Json

namespace FieldSpec

theorem ofJson?_eq_some {value : JsonValue} {slots : List (String × JsonValue)} {spec : FieldSpec}
    (given : slots? ["name", "aliases", "store_field"] value = some slots)
    (name : slot? slots "name" none string? = some spec.name)
    (aliases : slot? slots "aliases" (some []) (list? string?) = some spec.aliases)
    (storeField : slot? slots "store_field" (some none) (nullable? string?) =
      some spec.storeField?) : ofJson? value = some spec := by
  simp only [ofJson?, given, name, aliases, storeField, Option.bind_eq_bind, Option.bind_some,
    Option.pure_def]

theorem ofJson?_toJson (spec : FieldSpec) : ofJson? spec.toJson = some spec := by
  obtain ⟨name, aliases, storeField?⟩ := spec
  have aliasesRead : list? string? (.array (aliases.map .ofString)) = some aliases :=
    list?_array (fun name => (rfl : string? (.ofString name) = some name)) aliases
  cases storeField? with
  | none =>
      have given : slots? ["name", "aliases", "store_field"] (toJson ⟨name, aliases, none⟩) = _ :=
        slots?_object [("name", .ofString name), ("aliases", .array (aliases.map .ofString))]
          (by simp) (by simp)
      exact ofJson?_eq_some given (slot?_of_lookup rfl rfl) (slot?_of_lookup rfl aliasesRead) rfl
  | some storeField =>
      have given :
          slots? ["name", "aliases", "store_field"] (toJson ⟨name, aliases, some storeField⟩) = _ :=
        slots?_object [("name", .ofString name), ("aliases", .array (aliases.map .ofString)),
          ("store_field", .ofString storeField)] (by simp) (by simp)
      exact ofJson?_eq_some given (slot?_of_lookup rfl rfl) (slot?_of_lookup rfl aliasesRead)
        (slot?_of_lookup rfl rfl)

end FieldSpec

namespace Config

theorem ofJson?_eq_some {value : JsonValue} {slots : List (String × JsonValue)} {config : Config}
    (given : slots? ["tenant_fields", "stack_fields", "match_all_token", "match_none_token"] value
      = some slots)
    (tenantFields : slot? slots "tenant_fields" (some []) (list? FieldSpec.ofJson?) =
      some config.tenantFields)
    (stackFields : slot? slots "stack_fields" (some []) (list? FieldSpec.ofJson?) =
      some config.stackFields)
    (all : slot? slots "match_all_token" (some Sentinels.standard.all) string? =
      some config.sentinels.all)
    (nothing : slot? slots "match_none_token" (some Sentinels.standard.none) string? =
      some config.sentinels.none) : ofJson? value = some config := by
  simp only [ofJson?, given, tenantFields, stackFields, all, nothing, Option.bind_eq_bind,
    Option.bind_some, Option.pure_def]

theorem ofJson?_toJson (config : Config) : ofJson? config.toJson = some config := by
  obtain ⟨tenantFields, stackFields, all, nothing⟩ := config
  have specsRead (specs : List FieldSpec) :
      list? FieldSpec.ofJson? (.array (specs.map FieldSpec.toJson)) = some specs :=
    list?_array FieldSpec.ofJson?_toJson specs
  have given : slots? ["tenant_fields", "stack_fields", "match_all_token", "match_none_token"]
      (toJson ⟨tenantFields, stackFields, all, nothing⟩) = _ :=
    slots?_object [("tenant_fields", .array (tenantFields.map FieldSpec.toJson)),
      ("stack_fields", .array (stackFields.map FieldSpec.toJson)),
      ("match_all_token", .ofString all), ("match_none_token", .ofString nothing)]
      (by simp) (by simp)
  exact ofJson?_eq_some given (slot?_of_lookup rfl (specsRead tenantFields))
    (slot?_of_lookup rfl (specsRead stackFields)) (slot?_of_lookup rfl rfl)
    (slot?_of_lookup rfl rfl)

theorem ofText_toText (config : Config) : ofText config.toText = .ok config := by
  rw [ofText, toText, String.toList_ofList, JsonValue.parse?_written, Option.bind_some,
    ofJson?_toJson]

end Config

end ScopedFilter
