import Mathlib
import ScopedFilter.Fields.Table

/-!
The field table holds exactly the declared names. Entering them into a register, one after the
other, gives the same table: a name takes the place of what was entered under it before, and if
there was something the name is reported and nothing more is entered. Main statement:
`ofConfig_exact`.
-/

namespace ScopedFilter

namespace Config

def declarations (config : Config) : List (Scope × FieldSpec) :=
  config.tenantFields.map (Scope.tenant, ·) ++ config.stackFields.map (Scope.stackAttribute, ·)

def names (config : Config) : List String :=
  config.declarations.flatMap fun declared => declared.2.name :: declared.2.aliases

end Config

abbrev Register := Std.HashMap String Entry

namespace Register

def enter (entry : Entry) (register : Register) (name : String) : Except ConfigError Register :=
  let (known, entered) := register.containsThenInsert name entry
  if known then .error (.duplicateField name) else .ok entered

def enterSpec (scope : Scope) (register : Register) (spec : FieldSpec) :
    Except ConfigError Register :=
  spec.names.foldlM (enter (spec.entry scope)) register

def ofConfig (config : Config) : Except ConfigError Register := do
  let tenants ← config.tenantFields.foldlM (enterSpec .tenant) ∅
  config.stackFields.foldlM (enterSpec .stackAttribute) tenants

end Register

theorem firstRepeat?_eq_some {seen names : List String} {name : String}
    (found : firstRepeat? seen names = some name) :
    ∃ before after, names = before ++ name :: after ∧ before.Nodup ∧
      (∀ earlier ∈ before, earlier ∉ seen) ∧ (name ∈ seen ∨ name ∈ before) := by
  induction names generalizing seen with
  | nil => cases found
  | cons first rest ih =>
      rw [firstRepeat?] at found
      split at found
      · rename_i known
        cases found
        exact ⟨[], rest, rfl, List.nodup_nil, by simp, .inl known⟩
      · rename_i fresh
        obtain ⟨before, after, rfl, distinct, apart, known⟩ := ih found
        refine ⟨first :: before, after, rfl, ?_, ?_, ?_⟩
        · refine List.nodup_cons.mpr ⟨fun again => ?_, distinct⟩
          exact apart first again (by simp)
        · intro earlier among before
          rcases List.mem_cons.mp among with rfl | later
          · exact fresh before
          · exact apart earlier later (by simp [before])
        · rcases known with same | later
          · rcases List.mem_cons.mp same with rfl | earlier
            · exact .inr (by simp)
            · exact .inl earlier
          · exact .inr (by simp [later])

namespace Config

theorem rows_eq (config : Config) :
    config.rows = config.declarations.flatMap fun declared => declared.2.rows declared.1 := by
  simp [rows, declarations, List.flatMap_map]

theorem map_fst_rows (config : Config) : config.rows.map Prod.fst = config.names := by
  rw [rows_eq, names, List.map_flatMap]
  refine congrArg (List.flatMap · _) (funext fun declared => ?_)
  simp [FieldSpec.rows, FieldSpec.names, Function.comp_def]

theorem mem_rows {config : Config} {declared : Scope × FieldSpec} {name : String}
    (known : declared ∈ config.declarations)
    (named : name ∈ declared.2.name :: declared.2.aliases) :
    (name, declared.2.entry declared.1) ∈ config.rows := by
  rw [rows_eq, List.mem_flatMap]
  exact ⟨declared, known, List.mem_map.mpr ⟨name, named, rfl⟩⟩

theorem existsUnique_declared {config : Config} (distinct : config.names.Nodup) {name : String}
    (known : name ∈ config.names) :
    ∃! declared, declared ∈ config.declarations ∧
      name ∈ declared.2.name :: declared.2.aliases := by
  obtain ⟨declared, among, named⟩ := List.mem_flatMap.mp known
  refine ⟨declared, ⟨among, named⟩, ?_⟩
  rintro other ⟨amongToo, namedToo⟩
  refine Decidable.byContradiction fun different => ?_
  have apart := (List.nodup_flatMap.mp distinct).2
  have symmetric : Std.Symm (Function.onFun List.Disjoint fun declared : Scope × FieldSpec =>
      declared.2.name :: declared.2.aliases) := ⟨fun _ _ => List.Disjoint.symm⟩
  exact apart.forall amongToo among different namedToo named

end Config

namespace Register

variable {register : Register} {seen rows : List (String × Entry)} {name : String} {entry : Entry}

structure Holds (register : Register) (rows : List (String × Entry)) : Prop where
  size : register.size = rows.length
  lookup : ∀ name : String, register[name]? = rows.lookup name

theorem holds_empty : Holds ∅ [] := ⟨Std.HashMap.size_empty, fun _ => Std.HashMap.getElem?_empty⟩

theorem lookup_eq_none_iff : rows.lookup name = none ↔ name ∉ rows.map Prod.fst := by
  rw [List.lookup_eq_none_iff]
  simp only [bne_iff_ne, List.mem_map, not_exists, not_and]
  exact ⟨fun apart row known same => apart row known same.symm,
    fun apart row known same => apart row known same.symm⟩

theorem Holds.contains_eq_false_iff (holds : Holds register seen) :
    register.contains name = false ↔ name ∉ seen.map Prod.fst := by
  rw [Std.HashMap.contains_eq_isSome_getElem?, holds.lookup, ← lookup_eq_none_iff,
    Option.isSome_eq_false_iff, Option.isNone_iff_eq_none]

theorem enter_eq_error (holds : Holds register seen) (known : name ∈ seen.map Prod.fst) :
    enter entry register name = .error (.duplicateField name) := by
  have present : register.contains name = true := by
    rw [← Bool.not_eq_false, holds.contains_eq_false_iff]
    exact not_not_intro known
  simp [enter, present]

theorem enter_eq_ok (entry : Entry) (holds : Holds register seen)
    (fresh : name ∉ seen.map Prod.fst) :
    ∃ after, enter entry register name = .ok after ∧ Holds after (seen ++ [(name, entry)]) := by
  have absent : register.contains name = false := holds.contains_eq_false_iff.mpr fresh
  refine ⟨register.insert name entry, by simp [enter, absent], ?_, fun other => ?_⟩
  · have outside : name ∉ register := by simpa using absent
    rw [Std.HashMap.size_insert, if_neg outside, holds.size, List.length_append]
    rfl
  · rw [Std.HashMap.getElem?_insert, holds.lookup, List.lookup_append]
    by_cases same : name = other
    · subst same
      rw [lookup_eq_none_iff.mpr fresh]
      simp
    · have apart : (other == name) = false := beq_false_of_ne (Ne.symm same)
      simp [same, List.lookup_cons, apart]

def enterRow (register : Register) (row : String × Entry) : Except ConfigError Register :=
  enter row.2 register row.1

theorem foldlM_enterRow_eq_ok (holds : Holds register seen)
    (distinct : ((seen ++ rows).map Prod.fst).Nodup) :
    ∃ after, rows.foldlM enterRow register = .ok after ∧ Holds after (seen ++ rows) := by
  induction rows generalizing register seen with
  | nil => exact ⟨register, rfl, by rwa [List.append_nil]⟩
  | cons row rows ih =>
      have fresh : row.1 ∉ seen.map Prod.fst := by
        rw [List.map_append, List.nodup_append] at distinct
        exact fun known => distinct.2.2 row.1 known row.1 (by simp) rfl
      obtain ⟨middle, entered, held⟩ := enter_eq_ok row.2 holds fresh
      obtain ⟨after, rest, holdsAll⟩ := ih held (by simpa using distinct)
      refine ⟨after, ?_, by simpa using holdsAll⟩
      rw [List.foldlM_cons, enterRow, entered]
      exact rest

theorem foldlM_rows (fields : List (Scope × FieldSpec)) (register : Register) :
    fields.foldlM (fun register declared => enterSpec declared.1 register declared.2) register
      = (fields.flatMap fun declared => declared.2.rows declared.1).foldlM enterRow register := by
  induction fields generalizing register with
  | nil => rfl
  | cons declared fields ih =>
      rw [List.foldlM_cons, List.flatMap_cons, List.foldlM_append, FieldSpec.rows,
        List.foldlM_map]
      exact congrArg (enterSpec declared.1 register declared.2 >>= ·) (funext ih)

theorem ofConfig_eq (config : Config) :
    ofConfig config = config.rows.foldlM enterRow ∅ := by
  rw [Config.rows_eq, ← foldlM_rows, Config.declarations, List.foldlM_append, List.foldlM_map]
  refine congrArg (_ >>= ·) (funext fun tenants => ?_)
  rw [List.foldlM_map]

theorem ofConfig_eq_ok {config : Config} (distinct : config.names.Nodup) :
    ∃ register, ofConfig config = .ok register ∧ Holds register config.rows := by
  rw [← Config.map_fst_rows] at distinct
  rw [ofConfig_eq]
  exact foldlM_enterRow_eq_ok holds_empty distinct

theorem ofConfig_eq_error {config : Config} {before after : List String}
    (names : config.names = before ++ name :: after) (distinct : before.Nodup)
    (known : name ∈ before) : ofConfig config = .error (.duplicateField name) := by
  rw [← Config.map_fst_rows, List.map_eq_append_iff] at names
  obtain ⟨earlier, later, rows, rfl, laterNames⟩ := names
  obtain ⟨row, rest, rfl, rfl, -⟩ := List.map_eq_cons_iff.mp laterNames
  obtain ⟨middle, entered, holds⟩ := foldlM_enterRow_eq_ok holds_empty distinct
  have again : enterRow middle row = .error (.duplicateField row.1) := enter_eq_error holds known
  rw [ofConfig_eq, rows, List.foldlM_append, entered]
  change (row :: rest).foldlM enterRow middle = _
  rw [List.foldlM_cons, again]
  rfl

end Register

namespace Table

theorem ofConfig_eq_ok {config : Config} (distinct : config.names.Nodup) :
    ∃ table, ofConfig config = .ok table ∧ table.rows = config.rows := by
  have fresh : firstRepeat? [] (config.rows.map Prod.fst) = none := by
    rw [firstRepeat?_eq_none_iff, Config.map_fst_rows]
    exact ⟨distinct, by simp⟩
  rw [ofConfig]
  split
  · rename_i repeated
    rw [fresh] at repeated
    cases repeated
  · exact ⟨_, rfl, rfl⟩

theorem ofConfig_eq_error {config : Config} (repeats : ¬config.names.Nodup) :
    ∃ before name after, config.names = before ++ name :: after ∧ before.Nodup ∧ name ∈ before ∧
      ofConfig config = .error (.duplicateField name) := by
  rw [ofConfig]
  split
  · rename_i name found
    rw [Config.map_fst_rows] at found
    obtain ⟨before, after, names, distinct, -, known⟩ := firstRepeat?_eq_some found
    exact ⟨before, name, after, names, distinct, by simpa using known, rfl⟩
  · rename_i fresh
    rw [firstRepeat?_eq_none_iff, Config.map_fst_rows] at fresh
    exact absurd fresh.1 repeats

/-- The table is built exactly if no name is declared twice. It then has one entry for each declared
name, that of its only declaration, and a register with the names entered in turn agrees with it.
Otherwise both report the first name that stands behind an equal one. -/
theorem ofConfig_exact (config : Config) :
    ((∃ table, ofConfig config = .ok table) ↔ config.names.Nodup) ∧
    (∀ table, ofConfig config = .ok table →
      table.size = config.names.length ∧
      (∀ declared ∈ config.declarations, ∀ name ∈ declared.2.name :: declared.2.aliases,
        table.lookup? name = some
            ⟨declared.1, declared.2.name, declared.2.storeField?.getD declared.2.name⟩ ∧
          table.scope name = declared.1) ∧
      (∀ name ∈ config.names, ∃! declared, declared ∈ config.declarations ∧
        name ∈ declared.2.name :: declared.2.aliases) ∧
      (∀ name ∉ config.names,
        table.lookup? name = none ∧ table.scope name = .eventAttribute) ∧
      ∃ register, Register.ofConfig config = .ok register ∧ register.size = table.size ∧
        ∀ name : String, register[name]? = table.lookup? name) ∧
    (¬config.names.Nodup →
      ∃ before name after, config.names = before ++ name :: after ∧ before.Nodup ∧
        name ∈ before ∧ ofConfig config = .error (.duplicateField name) ∧
        Register.ofConfig config = .error (.duplicateField name)) := by
  have built_iff : (∃ table, ofConfig config = .ok table) ↔ config.names.Nodup := by
    constructor
    · rintro ⟨table, built⟩
      refine Decidable.byContradiction fun repeats => ?_
      obtain ⟨before, name, after, -, -, -, failed⟩ := ofConfig_eq_error repeats
      rw [built] at failed
      cases failed
    · intro distinct
      obtain ⟨table, built, -⟩ := ofConfig_eq_ok distinct
      exact ⟨table, built⟩
  refine ⟨built_iff, fun table built => ?_, fun repeats => ?_⟩
  · have distinct : config.names.Nodup := built_iff.mp ⟨table, built⟩
    have rows : table.rows = config.rows := by
      obtain ⟨other, builtToo, rows⟩ := ofConfig_eq_ok distinct
      rw [built] at builtToo
      cases builtToo
      exact rows
    refine ⟨?_, ?_, fun name => Config.existsUnique_declared distinct, ?_, ?_⟩
    · rw [size, rows, ← Config.map_fst_rows, List.length_map]
    · intro declared known name named
      have found : table.lookup? name = some (declared.2.entry declared.1) := by
        rw [lookup?_eq_some_iff, rows]
        exact Config.mem_rows known named
      exact ⟨found, by rw [scope, found]; rfl⟩
    · intro name unknown
      have absent : table.lookup? name = none := by
        rw [lookup?, rows, Register.lookup_eq_none_iff, Config.map_fst_rows]
        exact unknown
      exact ⟨absent, by rw [scope, absent]; rfl⟩
    · obtain ⟨register, entered, holds⟩ := Register.ofConfig_eq_ok distinct
      refine ⟨register, entered, ?_, fun name => ?_⟩
      · rw [holds.size, size, rows]
      · rw [holds.lookup, lookup?, rows]
  · obtain ⟨before, name, after, names, distinct, known, failed⟩ := ofConfig_eq_error repeats
    exact ⟨before, name, after, names, distinct, known, failed,
      Register.ofConfig_eq_error names distinct known⟩

end Table
end ScopedFilter
