import EZChain.Serde.Conversion

/-!
# JSON round trips

An instance with field values of the declared types is read back from its JSON text exactly if no
container is lost on the way: tuples come back from the fields that the table of tuple fields lists,
and all other sequences come back as lists.
-/

namespace EZChain.Serde

open Checks JsonText

/-! ## Values of a type -/

/-- The value is of the declared type; instances in it have passed their own checks. -/
inductive HasType : FieldType → Datum → Prop
  | int (value : ℤ) : HasType .int (.int value)
  /-- `bool` is a subclass of `int`. -/
  | boolAsInt (value : Bool) : HasType .int (.bool value)
  | bool (value : Bool) : HasType .bool (.bool value)
  | str (value : String) : HasType .str (.str value)
  | bytes (value : Bytes) : HasType .bytes (.bytes value)
  | literal {texts : List String} {value : String} (listed : value ∈ texts) :
      HasType (.literal texts) (.str value)
  | enumMember {enumClass : EnumClass} {value : String} (listed : value ∈ enumClass.values) :
      HasType (.enumeration enumClass) (.enumMember enumClass value)
  | absent (type : FieldType) : HasType (.optional type) .none
  | present {type : FieldType} {value : Datum} (typed : HasType type value) :
      HasType (.optional type) value
  | tuple {type : FieldType} {items : List Datum} (typed : ∀ item ∈ items, HasType type item) :
      HasType (.tuple type) (.tuple items)
  | dataclass {classNames : List ClassName} {className : ClassName}
      {fields : List (String × Datum)} (listed : className ∈ classNames)
      (names : fields.map Prod.fst = className.fields.map FieldDecl.name)
      (typed : ∀ decl ∈ className.fields, ∀ value, (decl.name, value) ∈ fields →
        HasType decl.type value)
      (checked : className.postInit fields = .ok fields) :
      HasType (.oneOf classNames) (.dataclass className fields)
  /-- Free-form dictionaries are left empty. -/
  | freeForm : HasType .freeForm (.dict [])
  | object {type : FieldType} {value : Datum} (typed : HasType type value) :
      HasType .object value
  | listObject {items : List Datum} (typed : ∀ item ∈ items, HasType .object item) :
      HasType .object (.list items)
  | dictObject {entries : List (String × Datum)}
      (ordered : entries.Pairwise fun left right => left.1 < right.1)
      (typed : ∀ entry ∈ entries, HasType .object entry.2) : HasType .object (.dict entries)

/-- Keys that the decoder takes for tags. -/
def reservedKeys : List String := ["__bytes__", "__enum__", "__type__"]

namespace FieldType

def isTuple : FieldType → Bool
  | .tuple _ => true
  | _ => false

end FieldType

/-- The class declares a field as a tuple. -/
def ClassName.declaresTuple (className : ClassName) (name : String) : Bool :=
  className.fields.any fun decl => decl.name = name && decl.type.isTuple

mutual

/-- No container is lost: there is no `BlockSyncResult`, and in a value of declared type `object`
there is no tuple, except in tuple fields of instances, and no dictionary with a reserved key. -/
def Datum.Restorable (inTupleField : Bool) : Datum → Prop
  | .list items => inTupleField = false ∧ ItemsRestorable items
  | .tuple items => inTupleField = true ∧ ItemsRestorable items
  | .dict entries => (∀ key ∈ reservedKeys, key ∉ entries.map Prod.fst) ∧ EntriesRestorable entries
  | .dataclass className fields => className ≠ .blockSyncResult ∧ FieldsRestorable className fields
  | _ => True

def ItemsRestorable : List Datum → Prop
  | [] => True
  | item :: items => item.Restorable false ∧ ItemsRestorable items

def EntriesRestorable : List (String × Datum) → Prop
  | [] => True
  | (_, value) :: entries => value.Restorable false ∧ EntriesRestorable entries

def FieldsRestorable (className : ClassName) : List (String × Datum) → Prop
  | [] => True
  | (name, value) :: fields =>
      value.Restorable (className.declaresTuple name) ∧ FieldsRestorable className fields

end

theorem itemsRestorable_iff (items : List Datum) :
    ItemsRestorable items ↔ ∀ item ∈ items, item.Restorable false := by
  induction items with
  | nil => simp [ItemsRestorable]
  | cons item items induction => simp [ItemsRestorable, induction]

theorem entriesRestorable_iff (entries : List (String × Datum)) :
    EntriesRestorable entries ↔ ∀ entry ∈ entries, entry.2.Restorable false := by
  induction entries with
  | nil => simp [EntriesRestorable]
  | cons entry entries induction => simp [EntriesRestorable, induction]

theorem fieldsRestorable_iff (className : ClassName) (fields : List (String × Datum)) :
    FieldsRestorable className fields ↔
      ∀ entry ∈ fields, entry.2.Restorable (className.declaresTuple entry.1) := by
  induction fields with
  | nil => simp [FieldsRestorable]
  | cons entry fields induction => simp [FieldsRestorable, induction]

/-! ## The tables -/

namespace ClassName

theorem ofName?_name (className : ClassName) : ofName? className.name = some className := by
  cases className <;> rfl

theorem nodup_names (className : ClassName) : (className.fields.map FieldDecl.name).Nodup := by
  cases className <;> decide

theorem notMem_reservedKeys (className : ClassName) :
    ∀ name ∈ className.fields.map FieldDecl.name, name ∉ reservedKeys := by
  cases className <;> decide

theorem readsTuple_eq {className : ClassName} (listed : className ≠ .blockSyncResult) :
    ∀ name ∈ className.fields.map FieldDecl.name,
      className.readsTuple name = className.declaresTuple name := by
  cases className <;> first | decide | exact absurd rfl listed

end ClassName

theorem EnumClass.find?_name (enumClass : EnumClass) :
    (registry.find? fun other => other.name = enumClass.name) = some enumClass := by
  cases enumClass <;> rfl

/-! ## What is written -/

theorem toJsonItems_eq_map (items : List Datum) : toJsonItems items = items.map toJsonObj := by
  induction items with
  | nil => rfl
  | cons item items induction => rw [toJsonItems, List.map_cons, induction]

theorem toJsonEntries_eq_map (entries : List (String × Datum)) :
    toJsonEntries entries = entries.map fun entry => (entry.1, toJsonObj entry.2) := by
  induction entries with
  | nil => rfl
  | cons entry entries induction => rw [toJsonEntries, List.map_cons, induction]

theorem nodup_tagged {className : ClassName} {fields : List (String × Datum)}
    (names : fields.map Prod.fst = className.fields.map FieldDecl.name) :
    ("__type__" :: fields.map Prod.fst).Nodup := by
  rw [names]
  refine List.nodup_cons.mpr ⟨?_, className.nodup_names⟩
  exact fun member => className.notMem_reservedKeys _ member (by decide)

theorem exists_decl_of_mem {className : ClassName} {fields : List (String × Datum)}
    (names : fields.map Prod.fst = className.fields.map FieldDecl.name) {entry : String × Datum}
    (member : entry ∈ fields) : ∃ decl ∈ className.fields, decl.name = entry.1 := by
  have listed : entry.1 ∈ className.fields.map FieldDecl.name :=
    names ▸ List.mem_map_of_mem member
  exact List.mem_map.mp listed

theorem HasType.keysDistinct {type : FieldType} {value : Datum} (typed : HasType type value) :
    (toJsonObj value).KeysDistinct := by
  induction typed with
  | int | boolAsInt | bool | str | literal | absent => trivial
  | bytes | enumMember => simp [toJsonObj, Value.KeysDistinct, EntriesDistinct]
  | present _ induction => exact induction
  | object _ induction => exact induction
  | tuple _ induction =>
      rw [toJsonObj, Value.KeysDistinct, toJsonItems_eq_map, itemsDistinct_iff, List.forall_mem_map]
      exact induction
  | listObject _ induction =>
      rw [toJsonObj, Value.KeysDistinct, toJsonItems_eq_map, itemsDistinct_iff, List.forall_mem_map]
      exact induction
  | freeForm => exact ⟨List.nodup_nil, trivial⟩
  | dictObject ordered _ induction =>
      rw [toJsonObj, Value.KeysDistinct, toJsonEntries_eq_map, entriesDistinct_iff,
        List.forall_mem_map, List.map_map]
      refine ⟨?_, induction⟩
      exact (List.pairwise_map.mpr ordered).imp ne_of_lt
  | dataclass _ names _ _ induction =>
      rw [toJsonObj, Value.KeysDistinct, entriesDistinct_iff, toJsonEntries_eq_map,
        List.forall_mem_cons, List.forall_mem_map, List.map_cons, List.map_map]
      refine ⟨nodup_tagged names, trivial, ?_⟩
      rintro ⟨name, value⟩ member
      obtain ⟨decl, listed, rfl⟩ := exists_decl_of_mem names member
      exact induction decl listed value member

/-! ## What is read back -/

theorem fromHex_hexText (value : Bytes) : fromHex (hexText value).toList = some value := by
  rw [hexText, String.toList_ofList]
  induction value with
  | nil => rfl
  | cons byte value induction =>
      have bound := byte.toNat_lt
      have first := hexDigit?_digitChar (byte.toNat / 16) (by omega)
      have second := hexDigit?_digitChar (byte.toNat % 16) (by omega)
      have no_space : isSpace (Nat.digitChar (byte.toNat / 16)) = false := by
        have all : ∀ digit < 16, isSpace (Nat.digitChar digit) = false := by decide
        exact all _ (by omega)
      have number : byte.toNat / 16 * 16 + byte.toNat % 16 = byte.toNat := by omega
      simp only [List.flatMap_cons, List.cons_append, List.nil_append, fromHex, no_space,
        Bool.false_eq_true, if_false, first, second, induction, Option.bind_eq_bind,
        Option.bind_some, number, UInt8.ofNat_toNat]

/-- What is read from the text of a value. -/
def readBack (factories : Factories) (value : Datum) : Except SerdeError Datum :=
  fromJsonObj factories (toJsonObj value).sortKeys

theorem HasType.loadsJson_dumpsJson {type : FieldType} {value : Datum} (typed : HasType type value)
    (factories : Factories) :
    loadsJson factories (dumpsJson value) = readBack factories value := by
  rw [loadsJson, dumpsJson, loads_dumps typed.keysDistinct]
  rfl

theorem asField_false (value : Datum) : asField false value = value := by
  cases value <;> rfl

theorem map_asField_false (computation : Except SerdeError Datum) :
    computation.map (asField false) = computation := by
  cases computation <;> simp [Except.map, asField_false]

theorem asField_eq_dict {inTupleField : Bool} {value : Datum} {entries : List (String × Datum)} :
    asField inTupleField value = .dict entries ↔ value = .dict entries := by
  cases value <;> cases inTupleField <;> simp [asField]

theorem asField_eq_dataclass {inTupleField : Bool} {value : Datum} {className : ClassName}
    {fields : List (String × Datum)} :
    asField inTupleField value = .dataclass className fields ↔
      value = .dataclass className fields := by
  cases value <;> cases inTupleField <;> simp [asField]

section Read

variable {factories : Factories}

theorem fromJsonItems_eq_mapM (items : List Value) :
    fromJsonItems factories items = items.mapM (fromJsonObj factories) := by
  induction items with
  | nil => rfl
  | cons item items induction => rw [fromJsonItems, List.mapM_cons, induction]

theorem fromJsonEntries_eq_mapM (entries : List (String × Value)) :
    fromJsonEntries factories entries = entries.mapM fun entry => do
      let value ← fromJsonObj factories entry.2
      return (entry.1, value) := by
  induction entries with
  | nil => rfl
  | cons entry entries induction =>
      rw [fromJsonEntries, List.mapM_cons, induction, bind_assoc]
      simp only [pure_bind]

theorem fromJsonFields_eq_mapM (className : ClassName) (entries : List (String × Value)) :
    fromJsonFields factories className entries =
      (entries.filter fun entry => entry.1 ≠ "__type__").mapM fun entry => do
        let item ← fromJsonObj factories entry.2
        return (entry.1, asField (className.readsTuple entry.1) item) := by
  induction entries with
  | nil => rfl
  | cons entry entries induction =>
      rw [fromJsonFields]
      split_ifs with tag
      · rw [induction, List.filter_cons_of_neg (by simpa using tag)]
      · rw [induction, List.filter_cons_of_pos (by simpa using tag), List.mapM_cons, bind_assoc]
        simp only [pure_bind]

/-! ## Sequences -/

theorem readItems_eq_ok (items : List Datum) :
    (items.map fun item => (toJsonObj item).sortKeys).mapM (fromJsonObj factories) = .ok items ↔
      ∀ item ∈ items, readBack factories item = .ok item := by
  rw [mapM_eq_ok, List.forall₂_map_left_iff, List.forall₂_same]
  rfl

theorem readBack_list (items : List Datum) (inTupleField : Bool) (value : Datum) :
    (readBack factories (.list items)).map (asField inTupleField) = .ok value ↔
      ∃ results, (items.map fun item => (toJsonObj item).sortKeys).mapM (fromJsonObj factories) =
        .ok results ∧ asField inTupleField (.list results) = value := by
  rw [readBack, toJsonObj, Value.sortKeys, fromJsonObj, fromJsonItems_eq_mapM, sortItems_eq_map,
    toJsonItems_eq_map, List.map_map, map_eq_ok]
  simp only [bind_eq_ok, pure_eq_ok, exists_exists_and_eq_and]
  rfl

theorem restored_list_iff {items : List Datum} {inTupleField : Bool}
    (items_iff : ∀ item ∈ items, readBack factories item = .ok item ↔ item.Restorable false) :
    (readBack factories (.list items)).map (asField inTupleField) = .ok (.list items) ↔
      (Datum.list items).Restorable inTupleField := by
  rw [readBack_list, Datum.Restorable, itemsRestorable_iff, ← forall₂_congr items_iff,
    ← readItems_eq_ok]
  cases inTupleField <;> simp [asField]

theorem restored_tuple_iff {items : List Datum} {inTupleField : Bool}
    (items_iff : ∀ item ∈ items, readBack factories item = .ok item ↔ item.Restorable false) :
    (readBack factories (.tuple items)).map (asField inTupleField) = .ok (.tuple items) ↔
      (Datum.tuple items).Restorable inTupleField := by
  change (readBack factories (.list items)).map _ = _ ↔ _
  rw [readBack_list, Datum.Restorable, itemsRestorable_iff, ← forall₂_congr items_iff,
    ← readItems_eq_ok]
  cases inTupleField <;> simp [asField]

/-! ## Dictionaries -/

theorem sortByKey_of_ordered {α : Type} {entries : List (String × α)}
    (ordered : entries.Pairwise fun left right => left.1 < right.1) : sortByKey entries = entries :=
  List.Pairwise.insertionSort_eq (ordered.imp le_of_lt)

theorem exists_bytes_of_decodeBytes {text : Value} {result : Datum}
    (decodes : decodeBytes text = .ok result) : ∃ value, result = .bytes value := by
  cases text with
  | str text =>
      simp only [decodeBytes, bind_eq_ok, pure_eq_ok] at decodes
      obtain ⟨value, _, rfl⟩ := decodes
      exact ⟨value, rfl⟩
  | _ => cases decodes

theorem exists_member_of_decodeEnum {name : Value} {entries : List (String × Value)}
    {result : Datum} (decodes : decodeEnum name entries = .ok result) :
    ∃ enumClass value, result = .enumMember enumClass value := by
  simp only [decodeEnum, bind_eq_ok] at decodes
  obtain ⟨_, _, enumClass, _, raw, _, decodes⟩ := decodes
  cases raw with
  | str value =>
      simp only [bind_eq_ok, pure_eq_ok] at decodes
      obtain ⟨_, _, rfl⟩ := decodes
      exact ⟨enumClass, value, rfl⟩
  | _ => cases decodes

theorem exists_fields_of_construct {className : ClassName} {arguments : List (String × Datum)}
    {result : Datum} (constructs : className.construct factories arguments = .ok result) :
    ∃ fields, result = .dataclass className fields := by
  simp only [ClassName.construct, bind_eq_ok, pure_eq_ok] at constructs
  obtain ⟨_, _, _, _, fields, _, rfl⟩ := constructs
  exact ⟨fields, rfl⟩

/-- An object with a reserved key is not read as a dictionary. -/
theorem fromJsonObj_ne_dict {entries : List (String × Value)} {key : String}
    (reserved : key ∈ reservedKeys) (member : key ∈ entries.map Prod.fst)
    (results : List (String × Datum)) :
    fromJsonObj factories (.dict entries) ≠ .ok (.dict results) := by
  have found : OrderedDict.findValue key entries ≠ none := by
    rw [Ne, OrderedDict.findValue_eq_none_iff]
    exact not_not.mpr member
  intro reads
  rw [fromJsonObj] at reads
  split at reads
  · obtain ⟨_, equality⟩ := exists_bytes_of_decodeBytes reads
    cases equality
  · next no_bytes =>
      split at reads
      · obtain ⟨_, _, equality⟩ := exists_member_of_decodeEnum reads
        cases equality
      · next no_enum =>
          split at reads
          · obtain ⟨_, _, reads⟩ := bind_eq_ok.mp reads
            obtain ⟨_, _, reads⟩ := bind_eq_ok.mp reads
            obtain ⟨_, equality⟩ := exists_fields_of_construct reads
            cases equality
          · next no_type =>
              simp only [reservedKeys, List.mem_cons, List.not_mem_nil, or_false] at reserved
              rcases reserved with rfl | rfl | rfl <;> contradiction

theorem fromJsonObj_dict {entries : List (String × Value)}
    (plain : ∀ key ∈ reservedKeys, key ∉ entries.map Prod.fst) :
    fromJsonObj factories (.dict entries) =
      (do
        let entries ← fromJsonEntries factories entries
        return .dict entries) := by
  have absent (key : String) (reserved : key ∈ reservedKeys) :
      OrderedDict.findValue key entries = none :=
    (OrderedDict.findValue_eq_none_iff key entries).mpr (plain key reserved)
  simp only [fromJsonObj, absent "__bytes__" (by decide), absent "__enum__" (by decide),
    absent "__type__" (by decide)]

theorem readEntries_eq_ok (entries : List (String × Datum)) :
    fromJsonEntries factories
        (entries.map fun entry => (entry.1, (toJsonObj entry.2).sortKeys)) = .ok entries ↔
      ∀ entry ∈ entries, readBack factories entry.2 = .ok entry.2 := by
  rw [fromJsonEntries_eq_mapM, mapM_eq_ok, List.forall₂_map_left_iff, List.forall₂_same]
  simp only [bind_eq_ok, pure_eq_ok]
  refine forall₂_congr fun entry _ => ?_
  constructor
  · rintro ⟨value, reads, equality⟩
    have value_eq : value = entry.2 := congrArg Prod.snd equality
    rw [← value_eq] at reads ⊢
    exact reads
  · exact fun reads => ⟨entry.2, reads, rfl⟩

theorem restored_dict_iff {entries : List (String × Datum)} {inTupleField : Bool}
    (ordered : entries.Pairwise fun left right => left.1 < right.1)
    (values_iff : ∀ entry ∈ entries,
      readBack factories entry.2 = .ok entry.2 ↔ entry.2.Restorable false) :
    (readBack factories (.dict entries)).map (asField inTupleField) = .ok (.dict entries) ↔
      (Datum.dict entries).Restorable inTupleField := by
  have sorted_json : (toJsonObj (.dict entries)).sortKeys =
      .dict (entries.map fun entry => (entry.1, (toJsonObj entry.2).sortKeys)) := by
    rw [toJsonObj, Value.sortKeys, toJsonEntries_eq_map, sortEntries_eq_map, List.map_map]
    exact congrArg Value.dict (sortByKey_of_ordered (List.pairwise_map.mpr ordered))
  have keys_eq : (entries.map fun entry => (entry.1, (toJsonObj entry.2).sortKeys)).map Prod.fst =
      entries.map Prod.fst := List.map_map
  rw [map_eq_ok, readBack, sorted_json, Datum.Restorable, entriesRestorable_iff,
    ← forall₂_congr values_iff, ← readEntries_eq_ok]
  simp only [asField_eq_dict, exists_eq_right]
  constructor
  · intro reads
    have plain : ∀ key ∈ reservedKeys, key ∉ entries.map Prod.fst :=
      fun key reserved member => fromJsonObj_ne_dict reserved (keys_eq.symm ▸ member) _ reads
    refine ⟨plain, ?_⟩
    rw [fromJsonObj_dict (keys_eq.symm ▸ plain), bind_eq_ok] at reads
    obtain ⟨results, reads, done⟩ := reads
    rw [reads, Datum.dict.inj (Except.ok.inj done)]
  · rintro ⟨plain, reads⟩
    rw [fromJsonObj_dict (keys_eq.symm ▸ plain), reads]
    rfl

/-! ## Instances -/

/-- The written fields of an instance, tagged and in the order of their names. -/
def written (className : ClassName) (fields : List (String × Datum)) : List (String × Value) :=
  sortByKey (("__type__", .str className.name) ::
    fields.map fun entry => (entry.1, (toJsonObj entry.2).sortKeys))

theorem sortKeys_dataclass (className : ClassName) (fields : List (String × Datum)) :
    (toJsonObj (.dataclass className fields)).sortKeys = .dict (written className fields) := by
  rw [toJsonObj, Value.sortKeys, sortEntries_eq_map, List.map_cons, toJsonEntries_eq_map,
    List.map_map]
  rfl

theorem perm_written (className : ClassName) (fields : List (String × Datum)) :
    (written className fields).Perm (("__type__", .str className.name) ::
      fields.map fun entry => (entry.1, (toJsonObj entry.2).sortKeys)) :=
  perm_sortByKey _

theorem map_fst_tagged (className : ClassName) (fields : List (String × Datum)) :
    (("__type__", Value.str className.name) ::
      fields.map fun entry => (entry.1, (toJsonObj entry.2).sortKeys)).map Prod.fst =
        "__type__" :: fields.map Prod.fst := by
  rw [List.map_cons, List.map_map]
  rfl

theorem decodeClass_name (className : ClassName) :
    decodeClass (.str className.name) = .ok className := by
  change demand (ClassName.ofName? className.name) _ = _
  rw [className.ofName?_name]
  rfl

variable {className : ClassName} {fields : List (String × Datum)}

/-- The written object is decoded as an instance of its class. -/
theorem fromJsonObj_written (names : fields.map Prod.fst = className.fields.map FieldDecl.name) :
    fromJsonObj factories (.dict (written className fields)) =
      fromJsonFields factories className (written className fields) >>=
        className.construct factories := by
  have keys := (perm_written className fields).map Prod.fst
  rw [map_fst_tagged] at keys
  have absent (key : String) (reserved : key ∈ reservedKeys) (not_type : key ≠ "__type__") :
      OrderedDict.findValue key (written className fields) = none := by
    rw [OrderedDict.findValue_eq_none_iff, keys.mem_iff, List.mem_cons, not_or]
    refine ⟨not_type, fun member => ?_⟩
    rw [names] at member
    exact className.notMem_reservedKeys key member reserved
  have tag : OrderedDict.findValue "__type__" (written className fields) =
      some (.str className.name) := by
    rw [OrderedDict.findValue_eq_some_iff (keys.nodup_iff.mpr (nodup_tagged names)),
      (perm_written className fields).mem_iff]
    exact List.mem_cons_self
  simp only [fromJsonObj, absent "__bytes__" (by decide) (by decide),
    absent "__enum__" (by decide) (by decide), tag, decodeClass_name]
  rfl

theorem perm_filter_written (names : fields.map Prod.fst = className.fields.map FieldDecl.name) :
    ((written className fields).filter fun entry => entry.1 ≠ "__type__").Perm
      (fields.map fun entry => (entry.1, (toJsonObj entry.2).sortKeys)) := by
  apply ((perm_written className fields).filter _).trans
  have untagged : ∀ entry ∈ fields.map fun entry => (entry.1, (toJsonObj entry.2).sortKeys),
      decide (entry.1 ≠ "__type__") = true := by
    rw [List.forall_mem_map]
    intro entry member
    refine decide_eq_true fun equality => (List.nodup_cons.mp (nodup_tagged names)).1 ?_
    exact equality ▸ List.mem_map_of_mem member
  rw [List.filter_cons_of_neg (by simp), List.filter_eq_self.mpr untagged]

/-- The value of the field is read as the value of the argument. -/
def ReadsAs (factories : Factories) (className : ClassName) (field argument : String × Datum) :
    Prop :=
  argument.1 = field.1 ∧
    (readBack factories field.2).map (asField (className.readsTuple field.1)) = .ok argument.2

theorem map_fst_of_reads {arguments : List (String × Datum)}
    (reads : List.Forall₂ (ReadsAs factories className) fields arguments) :
    arguments.map Prod.fst = fields.map Prod.fst := by
  have equal := reads.imp fun _ _ reads_as => reads_as.1.symm
  rw [← List.forall₂_map_right_iff, ← List.forall₂_map_left_iff] at equal
  exact (List.forall₂_eq_eq_eq ▸ equal).symm

theorem forall₂_read_iff {arguments : List (String × Datum)} :
    List.Forall₂ (fun entry argument =>
        (do
          let item ← fromJsonObj factories entry.2
          return (entry.1, asField (className.readsTuple entry.1) item)) = .ok argument)
      (fields.map fun entry => (entry.1, (toJsonObj entry.2).sortKeys)) arguments ↔
    List.Forall₂ (ReadsAs factories className) fields arguments := by
  rw [List.forall₂_map_left_iff]
  refine iff_of_eq (congrArg (fun relation => List.Forall₂ relation fields arguments) ?_)
  funext entry argument
  simp only [ReadsAs, map_eq_ok, bind_eq_ok, pure_eq_ok, readBack, Prod.ext_iff, eq_iff_iff]
  constructor
  · rintro ⟨item, reads, name_eq, value_eq⟩
    exact ⟨name_eq.symm, item, reads, value_eq⟩
  · rintro ⟨name_eq, item, reads, value_eq⟩
    exact ⟨item, reads, name_eq.symm, value_eq⟩

theorem exists_read_of_forall₂ (names : fields.map Prod.fst = className.fields.map FieldDecl.name)
    {arguments : List (String × Datum)}
    (reads : List.Forall₂ (ReadsAs factories className) fields arguments) :
    ∃ read, fromJsonFields factories className (written className fields) = .ok read ∧
      read.Perm arguments := by
  obtain ⟨read, all_read, perm⟩ :=
    List.perm_comp_forall₂ (perm_filter_written names) (forall₂_read_iff.mpr reads)
  refine ⟨read, ?_, perm⟩
  rw [fromJsonFields_eq_mapM, mapM_eq_ok]
  exact all_read

theorem exists_forall₂_of_read (names : fields.map Prod.fst = className.fields.map FieldDecl.name)
    {read : List (String × Datum)}
    (reads : fromJsonFields factories className (written className fields) = .ok read) :
    ∃ arguments, List.Forall₂ (ReadsAs factories className) fields arguments ∧
      read.Perm arguments := by
  rw [fromJsonFields_eq_mapM, mapM_eq_ok] at reads
  obtain ⟨arguments, all_read, perm⟩ :=
    List.perm_comp_forall₂ (perm_filter_written names).symm reads
  exact ⟨arguments, forall₂_read_iff.mp all_read, perm.symm⟩

/-- An instance does not depend on the order of its arguments. -/
theorem construct_of_perm {arguments read : List (String × Datum)} (perm : read.Perm arguments)
    (names : arguments.map Prod.fst = className.fields.map FieldDecl.name) :
    className.construct factories read =
      (className.postInit arguments).map (Datum.dataclass className) := by
  have nodup : (arguments.map Prod.fst).Nodup := names ▸ className.nodup_names
  have nodup_read : (read.map Prod.fst).Nodup := (perm.map Prod.fst).nodup_iff.mpr nodup
  have known : ∀ entry ∈ read, entry.1 ∈ className.fields.map FieldDecl.name := by
    intro entry member
    rw [← names]
    exact List.mem_map_of_mem (perm.mem_iff.mp member)
  have same_names : List.Forall₂ (fun decl entry => decl.name = entry.1) className.fields
      arguments := by
    rw [← List.forall₂_map_right_iff, ← List.forall₂_map_left_iff, names]
    exact List.forall₂_refl _
  have aligned : List.Forall₂ (fun entry decl => entry ∈ arguments ∧ decl.name = entry.1)
      arguments className.fields :=
    (List.forall₂_and_left arguments className.fields).mpr ⟨fun _ => id, same_names.flip⟩
  have matched : className.fields.mapM (argument factories read) = .ok arguments := by
    rw [mapM_eq_ok]
    apply aligned.flip.imp
    rintro decl ⟨name, value⟩ ⟨member, rfl⟩
    have found : OrderedDict.findValue decl.name read = some value :=
      (OrderedDict.findValue_eq_some_iff nodup_read _ _).mpr (perm.mem_iff.mpr member)
    rw [argument, found]
    rfl
  rw [ClassName.construct, require_of known, matched]
  change (className.postInit arguments >>= fun fields => .ok (Datum.dataclass className fields)) = _
  cases className.postInit arguments <;> rfl

theorem readBack_dataclass_iff (names : fields.map Prod.fst = className.fields.map FieldDecl.name)
    (result : Datum) :
    readBack factories (.dataclass className fields) = .ok result ↔
      ∃ arguments, List.Forall₂ (ReadsAs factories className) fields arguments ∧
        (className.postInit arguments).map (Datum.dataclass className) = .ok result := by
  have same_names {arguments : List (String × Datum)}
      (reads : List.Forall₂ (ReadsAs factories className) fields arguments) :
      arguments.map Prod.fst = className.fields.map FieldDecl.name :=
    (map_fst_of_reads reads).trans names
  rw [readBack, sortKeys_dataclass, fromJsonObj_written names, bind_eq_ok]
  constructor
  · rintro ⟨read, reads, constructs⟩
    obtain ⟨arguments, all_read, perm⟩ := exists_forall₂_of_read names reads
    rw [construct_of_perm perm (same_names all_read)] at constructs
    exact ⟨arguments, all_read, constructs⟩
  · rintro ⟨arguments, all_read, constructs⟩
    obtain ⟨read, reads, perm⟩ := exists_read_of_forall₂ names all_read
    rw [← construct_of_perm perm (same_names all_read)] at constructs
    exact ⟨read, reads, constructs⟩

theorem postInit_eq_ok {arguments : List (String × Datum)}
    (checked : className.postInit arguments = .ok fields) :
    fields = arguments ∨ className = .bundleSidecar ∧
      ∃ count : ℕ, fields = OrderedDict.setEntry "tx_count" (.int count) arguments := by
  by_cases sidecar : className = .bundleSidecar
  · subst sidecar
    simp only [ClassName.postInit, ClassName.countTransactions, bind_eq_ok, pure_eq_ok] at checked
    obtain ⟨counted, counts, _, _, rfl⟩ := checked
    split_ifs at counts
    · simp only [bind_eq_ok, pure_eq_ok] at counts
      obtain ⟨_, _, count, _, rfl⟩ := counts
      exact .inr ⟨rfl, count, rfl⟩
    · exact .inl (Except.ok.inj counts).symm
  · rw [ClassName.postInit] at checked
    · simp only [bind_eq_ok, pure_eq_ok] at checked
      obtain ⟨_, _, rfl⟩ := checked
      exact .inl rfl
    · exact sidecar

theorem HasType.readBack_int {value : Datum} (typed : HasType .int value) (inTupleField : Bool) :
    (readBack factories value).map (asField inTupleField) = .ok value := by
  cases typed <;> rfl

/-- An instance is read back exactly if each field is. -/
theorem restored_dataclass_iff
    (names : fields.map Prod.fst = className.fields.map FieldDecl.name)
    (typed : ∀ decl ∈ className.fields, ∀ value, (decl.name, value) ∈ fields →
      HasType decl.type value)
    (checked : className.postInit fields = .ok fields) :
    readBack factories (.dataclass className fields) = .ok (.dataclass className fields) ↔
      ∀ entry ∈ fields, (readBack factories entry.2).map (asField (className.readsTuple entry.1)) =
        .ok entry.2 := by
  rw [readBack_dataclass_iff names]
  constructor
  · rintro ⟨arguments, reads, constructs⟩
    obtain ⟨results, made, equality⟩ := map_eq_ok.mp constructs
    rw [(Datum.dataclass.inj equality).2] at made
    rcases postInit_eq_ok made with rfl | ⟨rfl, count, fields_eq⟩
    · exact fun entry member => (List.forall₂_same.mp reads entry member).2
    · rintro ⟨name, value⟩ member
      obtain ⟨argument, argument_mem, name_eq, read⟩ := exists_related reads member
      by_cases counted : name = "tx_count"
      · have typed_int : HasType .int value := by
          apply typed (defaulted "tx_count" .int (.int 0)) (.tail _ (.tail _ (.head _))) value
          exact counted ▸ member
        exact typed_int.readBack_int _
      · have nodup : (fields.map Prod.fst).Nodup := names ▸ ClassName.nodup_names _
        have kept := (OrderedDict.findValue_eq_some_iff nodup name value).mpr member
        rw [fields_eq, OrderedDict.findValue_setEntry, if_neg (Ne.symm counted)] at kept
        have passed : OrderedDict.findValue argument.1 arguments = some argument.2 := by
          refine (OrderedDict.findValue_eq_some_iff ?_ _ _).mpr argument_mem
          exact (map_fst_of_reads reads).symm ▸ nodup
        rw [name_eq, kept] at passed
        rw [Option.some.inj passed] at read ⊢
        exact read
  · intro restored
    refine ⟨fields, List.forall₂_same.mpr fun entry member => ⟨rfl, restored entry member⟩, ?_⟩
    rw [checked]
    rfl

/-! ## All values -/

theorem readBack_bytes (value : Bytes) :
    readBack factories (.bytes value) = .ok (.bytes value) := by
  change decodeBytes (.str (hexText value)) = _
  rw [decodeBytes, fromHex_hexText]
  rfl

theorem readBack_enumMember {enumClass : EnumClass} {value : String}
    (listed : value ∈ enumClass.values) :
    readBack factories (.enumMember enumClass value) = .ok (.enumMember enumClass value) := by
  have ordered : [("__enum__", Value.str enumClass.name), ("value", .str value)].Pairwise
      fun left right => left.1 < right.1 := by
    simp only [List.pairwise_pair]
    decide
  have sorted : (toJsonObj (.enumMember enumClass value)).sortKeys =
      .dict [("__enum__", .str enumClass.name), ("value", .str value)] :=
    congrArg Value.dict (sortByKey_of_ordered ordered)
  rw [readBack, sorted]
  change decodeEnum (.str enumClass.name) _ = _
  rw [decodeEnum, bind_eq_ok]
  refine ⟨enumClass.name, rfl, bind_eq_ok.mpr ⟨enumClass, ?_, bind_eq_ok.mpr ⟨.str value, rfl, ?_⟩⟩⟩
  · exact demand_eq_ok.mpr enumClass.find?_name
  · exact bind_eq_ok.mpr ⟨(), require_of listed _, rfl⟩

/-- A value comes back into its field exactly if it is restorable there. -/
theorem HasType.restored_iff {type : FieldType} {value : Datum} (typed : HasType type value)
    (inTupleField : Bool) :
    (readBack factories value).map (asField inTupleField) = .ok value ↔
      value.Restorable inTupleField := by
  induction typed generalizing inTupleField with
  | int | boolAsInt | bool | str | literal | absent => exact iff_of_true rfl trivial
  | bytes value =>
      rw [readBack_bytes]
      exact iff_of_true rfl trivial
  | enumMember listed =>
      rw [readBack_enumMember listed]
      exact iff_of_true rfl trivial
  | present _ induction => exact induction inTupleField
  | object _ induction => exact induction inTupleField
  | tuple _ induction =>
      exact restored_tuple_iff fun item member =>
        map_asField_false (readBack factories item) ▸ induction item member false
  | listObject _ induction =>
      exact restored_list_iff fun item member =>
        map_asField_false (readBack factories item) ▸ induction item member false
  | freeForm => exact restored_dict_iff .nil (List.forall_mem_nil _)
  | dictObject ordered _ induction =>
      exact restored_dict_iff ordered fun entry member =>
        map_asField_false (readBack factories entry.2) ▸ induction entry member false
  | @dataclass _ className fields _ names typed checked induction =>
      have fields_iff : ∀ entry ∈ fields, ∀ inTupleField,
          (readBack factories entry.2).map (asField inTupleField) = .ok entry.2 ↔
            entry.2.Restorable inTupleField := by
        rintro ⟨name, value⟩ member
        obtain ⟨decl, listed, rfl⟩ := exists_decl_of_mem names member
        exact induction decl listed value member
      rw [map_eq_ok]
      simp only [asField_eq_dataclass, exists_eq_right]
      rw [restored_dataclass_iff names typed checked, Datum.Restorable, fieldsRestorable_iff]
      have name_mem {entry : String × Datum} (member : entry ∈ fields) :
          entry.1 ∈ className.fields.map FieldDecl.name := names ▸ List.mem_map_of_mem member
      constructor
      · intro restored
        have listed : className ≠ .blockSyncResult := by
          rintro rfl
          have named : "applied_heights" ∈ fields.map Prod.fst := names ▸ .head _
          obtain ⟨⟨_, heights⟩, member, rfl⟩ := List.mem_map.mp named
          have is_tuple : HasType (.tuple .int) heights :=
            typed (field "applied_heights" (.tuple .int)) (.head _) heights member
          cases is_tuple
          have lost := (fields_iff _ member _).mp (restored _ member)
          exact Bool.false_ne_true lost.1
        refine ⟨listed, fun entry member => ?_⟩
        rw [← ClassName.readsTuple_eq listed _ (name_mem member)]
        exact (fields_iff entry member _).mp (restored entry member)
      · rintro ⟨listed, restorable⟩ entry member
        rw [fields_iff entry member, ClassName.readsTuple_eq listed _ (name_mem member)]
        exact restorable entry member

end Read

/-- An instance is read back from its text exactly if no container is lost. -/
theorem loadsJson_dumpsJson_iff (factories : Factories) {className : ClassName} {value : Datum}
    (typed : HasType (.oneOf [className]) value) :
    loadsJson factories (dumpsJson value) = .ok value ↔ value.Restorable false := by
  have restored := @HasType.restored_iff factories _ _ typed false
  rwa [map_asField_false, ← typed.loadsJson_dumpsJson] at restored

/-! ## Samples -/

/-- Claim ranges with a single range. -/
def singleClaim : Datum :=
  .dataclass .claimRangeSet
    [("ranges", .tuple [.dataclass .valueRange [("begin", .int 0), ("end", .int 9)]])]

theorem typed_singleClaim : HasType (.oneOf [.claimRangeSet]) singleClaim := by
  have typed_range : HasType (.oneOf [.valueRange])
      (.dataclass .valueRange [("begin", .int 0), ("end", .int 9)]) := by
    refine .dataclass (.head _) rfl ?_ rfl
    simp [ClassName.fields, field, HasType.int]
  have typed_ranges : HasType (.tuple (.oneOf [.valueRange]))
      (.tuple [.dataclass .valueRange [("begin", .int 0), ("end", .int 9)]]) :=
    .tuple (List.forall_mem_singleton.mpr typed_range)
  refine .dataclass (.head _) rfl ?_ rfl
  simp [ClassName.fields, field, typed_ranges]

theorem loadsJson_singleClaim :
    loadsJson ⟨"", 0⟩ (dumpsJson singleClaim) = .ok singleClaim := by
  refine (loadsJson_dumpsJson_iff ⟨"", 0⟩ typed_singleClaim).mpr ?_
  simp [singleClaim, Datum.Restorable, FieldsRestorable, ItemsRestorable, ClassName.declaresTuple,
    ClassName.fields, field, FieldType.isTuple]

/-- The result of a sync that applied one block. -/
def firstSync : Datum :=
  .dataclass .blockSyncResult
    [("applied_heights", .tuple [.int 1]), ("latest_height", .int 1),
      ("latest_block_hash_hex", .str "")]

theorem typed_firstSync : HasType (.oneOf [.blockSyncResult]) firstSync := by
  have typed_heights : HasType (.tuple .int) (.tuple [.int 1]) :=
    .tuple (List.forall_mem_singleton.mpr (.int 1))
  refine .dataclass (.head _) rfl ?_ rfl
  simp [ClassName.fields, field, typed_heights, HasType.int, HasType.str]

/-- The heights come back as a list. -/
theorem loadsJson_firstSync :
    HasType (.oneOf [.blockSyncResult]) firstSync ∧
      loadsJson ⟨"", 0⟩ (dumpsJson firstSync) ≠ .ok firstSync := by
  refine ⟨typed_firstSync, fun reads => ?_⟩
  rw [typed_firstSync.loadsJson_dumpsJson, ← map_asField_false (readBack _ _),
    typed_firstSync.restored_iff] at reads
  exact reads.1 rfl

end EZChain.Serde
