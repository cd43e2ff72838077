import ScopedFilter.Fields.Table
import ScopedFilter.Json.Reading
import ScopedFilter.Json.Value

/-!
Configurations as JSON text. A record is written as an object; it is read from an object, where
unknown members are passed over, or from an array of its members in their order. Missing members
take their default if they have one, and no member may be given twice.
-/

namespace ScopedFilter

namespace Json

def slots? (names : List String) : JsonValue → Option (List (String × JsonValue))
  | .object members => do
      let named ← members.mapM fun (key, value) => key.map fun text => (text, value)
      let known := named.filter fun (key, _) => key ∈ names
      if (known.map Prod.fst).Nodup then some known else none
  | .array items => if items.length ≤ names.length then some (names.zip items) else none
  | _ => none

def string? : JsonValue → Option String
  | .string text => text
  | _ => none

def list? {α : Type} (item? : JsonValue → Option α) : JsonValue → Option (List α)
  | .array items => items.mapM item?
  | _ => none

def nullable? {α : Type} (content? : JsonValue → Option α) : JsonValue → Option (Option α)
  | .null => some none
  | value => (content? value).map some

/-- A member that is read if it is given, and else has a default. -/
def slot? {α : Type} (slots : List (String × JsonValue)) (name : String) (default? : Option α)
    (content? : JsonValue → Option α) : Option α :=
  match slots.lookup name with
  | some value => content? value
  | none => default?

end Json

open Json

namespace FieldSpec

def ofJson? (value : JsonValue) : Option FieldSpec := do
  let slots ← slots? ["name", "aliases", "store_field"] value
  let name ← slot? slots "name" none string?
  let aliases ← slot? slots "aliases" (some []) (list? string?)
  let storeField? ← slot? slots "store_field" (some none) (nullable? string?)
  return { name, aliases, storeField? }

def toJson (spec : FieldSpec) : JsonValue :=
  .object
    ([(some "name", .ofString spec.name),
      (some "aliases", .array (spec.aliases.map .ofString))]
      ++ spec.storeField?.toList.map fun name => (some "store_field", .ofString name))

end FieldSpec

namespace Config

def ofJson? (value : JsonValue) : Option Config := do
  let slots ← slots? ["tenant_fields", "stack_fields", "match_all_token", "match_none_token"] value
  let tenantFields ← slot? slots "tenant_fields" (some []) (list? FieldSpec.ofJson?)
  let stackFields ← slot? slots "stack_fields" (some []) (list? FieldSpec.ofJson?)
  let all ← slot? slots "match_all_token" (some Sentinels.standard.all) string?
  let nothing ← slot? slots "match_none_token" (some Sentinels.standard.none) string?
  return { tenantFields, stackFields, sentinels := ⟨all, nothing⟩ }

def toJson (config : Config) : JsonValue :=
  .object
    [(some "tenant_fields", .array (config.tenantFields.map FieldSpec.toJson)),
     (some "stack_fields", .array (config.stackFields.map FieldSpec.toJson)),
     (some "match_all_token", .ofString config.sentinels.all),
     (some "match_none_token", .ofString config.sentinels.none)]

def ofText (text : String) : Except ConfigError Config :=
  match (JsonValue.parse? text.toList).bind ofJson? with
  | some config => .ok config
  | none => .error .malformed

def toText (config : Config) : String := String.ofList config.toJson.written

end Config

end ScopedFilter
