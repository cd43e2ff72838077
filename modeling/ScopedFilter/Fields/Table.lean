import ScopedFilter.Query.Written

/-!
The fields. The configuration declares which fields are tenant fields, which are stack attributes,
and what stands for the two constants in a query. The field table has every declared name with its
entry. The stack store can decide tests of tenant fields and of stack attributes; what holds for
single events only is out of its reach. No name is declared twice, so the order of the declarations
does not matter for a lookup; building a table reports the first repeated name. On top of the table
a user gives further names to its fields. Such an alias is followed once.
-/

namespace ScopedFilter

structure FieldSpec where
  name : String
  aliases : List String := []
  storeField? : Option String := none
deriving DecidableEq, Repr

namespace FieldSpec

def storeField (spec : FieldSpec) : String := spec.storeField?.getD spec.name

def names (spec : FieldSpec) : List String := spec.name :: spec.aliases

end FieldSpec

structure Config where
  tenantFields : List FieldSpec := []
  stackFields : List FieldSpec := []
  sentinels : Sentinels := Sentinels.standard
deriving DecidableEq, Repr

def Config.standard : Config where
  tenantFields :=
    [{ name := "organization", aliases := ["organization_id"], storeField? := "organization_id" },
     { name := "project", aliases := ["project_id"], storeField? := "project_id" },
     { name := "stack", aliases := ["stack_id"], storeField? := "id" }]
  stackFields :=
    [{ name := "status" },
     { name := "first_occurrence", aliases := ["first"] },
     { name := "last_occurrence", aliases := ["last"] },
     { name := "total_occurrences", aliases := ["occurrences"] },
     { name := "fixed_in_version", aliases := ["fixedin"] },
     { name := "date_fixed", aliases := ["fixed"] },
     { name := "title" },
     { name := "signature_hash", aliases := ["signature"] }]

inductive ConfigError where
  | missing (path : String)
  | unreadable (path : String)
  | malformed
  | duplicateField (name : String)
deriving DecidableEq, Repr

def ConfigError.message : ConfigError → String
  | missing path => "配置文件不存在: " ++ path
  | unreadable path => "读取配置文件 " ++ path ++ " 失败"
  | malformed => "解析配置失败"
  | duplicateField name => "字段 '" ++ name ++ "' 重复声明"

inductive Scope where
  | tenant
  | stackAttribute
  | eventAttribute
deriving DecidableEq, Repr

namespace Scope

def decidable : Scope → Bool
  | eventAttribute => false
  | _ => true

def isTenant : Scope → Bool
  | tenant => true
  | _ => false

end Scope

structure Entry where
  scope : Scope
  canonical : String
  storeField : String
deriving DecidableEq, Repr

/-- The first name that has already occurred, given the names `seen` before. -/
def firstRepeat? (seen : List String) : List String → Option String
  | [] => none
  | name :: rest => if name ∈ seen then some name else firstRepeat? (name :: seen) rest

theorem firstRepeat?_eq_none_iff (seen names : List String) :
    firstRepeat? seen names = none ↔ names.Nodup ∧ ∀ name ∈ names, name ∉ seen := by
  induction names generalizing seen with
  | nil => simp [firstRepeat?]
  | cons name rest ih =>
      simp only [firstRepeat?]
      split
      · rename_i known
        simp [known]
      · rename_i fresh
        rw [ih, List.nodup_cons]
        constructor
        · rintro ⟨distinct, apart⟩
          refine ⟨⟨fun known => apart name known (by simp), distinct⟩, ?_⟩
          intro other known
          rcases List.mem_cons.mp known with rfl | later
          · exact fresh
          · exact fun before => apart other later (by simp [before])
        · rintro ⟨⟨absent, distinct⟩, apart⟩
          refine ⟨distinct, fun other known => ?_⟩
          rw [List.mem_cons, not_or]
          refine ⟨?_, apart other (by simp [known])⟩
          rintro rfl
          exact absent known

namespace FieldSpec

def entry (scope : Scope) (spec : FieldSpec) : Entry where
  scope := scope
  canonical := spec.name
  storeField := spec.storeField

def rows (scope : Scope) (spec : FieldSpec) : List (String × Entry) :=
  spec.names.map fun name => (name, spec.entry scope)

end FieldSpec

def Config.rows (config : Config) : List (String × Entry) :=
  config.tenantFields.flatMap (FieldSpec.rows .tenant)
    ++ config.stackFields.flatMap (FieldSpec.rows .stackAttribute)

structure Table where
  rows : List (String × Entry)
  distinct : (rows.map Prod.fst).Nodup

namespace Table

def ofConfig (config : Config) : Except ConfigError Table :=
  match repeated : firstRepeat? [] (config.rows.map Prod.fst) with
  | some name => .error (.duplicateField name)
  | none => .ok ⟨config.rows, ((firstRepeat?_eq_none_iff _ _).mp repeated).1⟩

def standard : Table where
  rows := Config.standard.rows
  distinct := by decide

def size (table : Table) : Nat := table.rows.length

def lookup? (table : Table) (name : String) : Option Entry := table.rows.lookup name

theorem lookup?_eq_some_iff {table : Table} {name : String} {entry : Entry} :
    table.lookup? name = some entry ↔ (name, entry) ∈ table.rows := by
  rw [lookup?, List.lookup_eq_some_iff]
  constructor
  · rintro ⟨before, after, rows, _⟩
    simp [rows]
  · intro declared
    obtain ⟨before, after, rows⟩ := List.append_of_mem declared
    refine ⟨before, after, rows, fun row earlier => ?_⟩
    have distinct := table.distinct
    rw [rows, List.map_append, List.nodup_append] at distinct
    have apart := distinct.2.2 row.1 (List.mem_map_of_mem earlier) name (by simp)
    simpa using apart.symm

/-- Names that are not in the table can only be about events. -/
def scope (table : Table) (name : String) : Scope :=
  ((table.lookup? name).map Entry.scope).getD .eventAttribute

end Table

abbrev Aliases := List (String × String)

structure Fields where
  table : Table
  aliases : Aliases := []

namespace Fields

def resolve (fields : Fields) (name : String) : String :=
  (fields.aliases.lookup name).getD name

def lookup? (fields : Fields) (name : String) : Option Entry :=
  fields.table.lookup? (fields.resolve name)

def scope (fields : Fields) : Option String → Scope
  | some name => fields.table.scope (fields.resolve name)
  | none => .eventAttribute

theorem scope_eq (fields : Fields) (field? : Option String) :
    fields.scope field? =
      ((field?.bind fields.lookup?).map Entry.scope).getD .eventAttribute := by
  cases field? <;> rfl

def decides (fields : Fields) (leaf : Leaf) : Bool := (fields.scope leaf.field?).decidable

def isTenant (fields : Fields) (leaf : Leaf) : Bool := (fields.scope leaf.field?).isTenant

def storeLeaf (fields : Fields) (leaf : Leaf) : Leaf :=
  match leaf.field?.bind fields.lookup? with
  | some entry => leaf.withField entry.storeField
  | none => leaf

end Fields

def Filter.inStore (fields : Fields) (filter : Filter) : Filter :=
  filter.mapLeaves fields.storeLeaf

theorem Filter.inStore_leaf (fields : Fields) (test : Leaf) :
    (leaf test).inStore fields =
      match (leaf test).field?.bind fields.lookup? with
      | some entry => (leaf test).withField entry.storeField
      | Option.none => leaf test := by
  rw [inStore, mapLeaves, Fields.storeLeaf, field?]
  cases test.field?.bind fields.lookup? <;> rfl

end ScopedFilter
