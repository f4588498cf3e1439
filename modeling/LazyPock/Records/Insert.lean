import LazyPock.Records.Validation
import LazyPock.Records.Write
import LazyPock.Schema.Effects

/-!
# The statement that inserts a record

The `insert` of `create_with` (`crates/db/src/records.rs`) against the table that
`create_table_statement` (`crates/db/src/ddl.rs`) builds for the collection. Every supplied value of a
writable column is bound as a text parameter or written as `null`; behind those stand the columns that
the caller has computed.

An auth collection lets `"verified": null` pass, and `verified` is `not null`. A date that the server
owns is written by nobody, so where it is required only its default can fill it.

## Main definitions

* `Records.writableColumns`: the columns a client may write.
* `Records.insertStatement`: the statement.
* `Records.Insert.row`: the values it assigns.
* `Records.Insert.RespectsNotNull`: no `not null` column is left without a value.

## Main results

* `Records.mem_row_insertStatement`: which values the statement assigns.
* `validated_create_iff`: when a validated create keeps the table's `not null` columns.
-/

namespace LazyPock.Records

open Text Validation Ddl Collections List

/-! ### Writable columns -/

/-- A column a client may write. -/
structure Writable where
  name : String
  /-- The column type, used as the parameter cast. -/
  columnType : Sql.PgType
  /-- The user field behind the column; none for an auth system column. -/
  field : Option Field

/-- The auth system columns a client may write. -/
def writableAuthColumns : List (String × Sql.PgType) := [("email", .text), ("verified", .boolean)]

/-- Whether a client may write a field: not a date the server owns, and not a credential. -/
def isWritable (collection : Collection) (field : Field) : Bool :=
  field.fieldType ≠ .autodate &&
    !(collection.collectionType.isAuth && field.name ∈ credentialColumns)

/-- The columns a client may write: the fields, and the auth system columns that are no field. -/
def writableColumns (collection : Collection) : Result (List Writable) := do
  let columns ← (collection.fields.filter (isWritable collection)).mapM fun field => do
    let columnType ← field.columnType
    .ok (⟨field.name, columnType, some field⟩ : Writable)
  let system := writableAuthColumns.filter fun column =>
    collection.collectionType.isAuth && column.1 ∉ collection.fields.map Field.name
  .ok (columns ++ system.map fun (name, columnType) => ⟨name, columnType, none⟩)

/-! ### Placeholders -/

/-- What stands for a value in the statement. -/
inductive Placeholder where
  | null
  /-- `$index::text`, and a further cast. -/
  | param (index : ℕ) (cast : Option Sql.PgType)
deriving DecidableEq

def Placeholder.text : Placeholder → String
  | null => "null"
  | param index none => "$" ++ toString index ++ "::text"
  | param index (some type) => "$" ++ toString index ++ "::text::" ++ type.sql

/-- The value a placeholder stands for. -/
@[grind =]
def Placeholder.value (params : List String) : Placeholder → Option String
  | null => none
  | param index _ => params[index - 1]?

/-- Bind a value, with a cast of its parameter. -/
@[grind =]
def bindValue (value : Option String) (cast : Option Sql.PgType) (params : List String) :
    Placeholder × List String :=
  match value with
  | none => (.null, params)
  | some text => (.param (params.length + 1) cast, params ++ [text])

/-- A placeholder for a raw text value, or `null` when there is none. -/
def textPlaceholder (value : Option String) (params : List String) : Placeholder × List String :=
  bindValue value none params

/-- The bind placeholder for a field's value. -/
def placeholder (field : Field) (value : Json) (params : List String) :
    Result (Placeholder × List String) := do
  let columnType ← field.columnType
  let encoded ← encodeValue field value
  .ok (bindValue encoded (if columnType = .text then none else some columnType) params)

/-- The value of an auth system column: plain text or boolean, already validated. -/
def systemValue (columnType : Sql.PgType) (value : Json) : Option String :=
  if value.isNull then none
  else if columnType = .boolean then
    some (if value.asBool.getD false then "true" else "false")
  else some (value.asStr.getD "")

/-- The bind placeholder for a writable column. -/
def writablePlaceholder (writable : Writable) (value : Json) (params : List String) :
    Result (Placeholder × List String) :=
  match writable.field with
  | none => .ok (textPlaceholder (systemValue writable.columnType value) params)
  | some field => placeholder field value params

/-! ### The statement -/

/-- An `insert`: its table, what each column is assigned, and the bound parameters. -/
structure Insert where
  table : String
  columns : List (String × Placeholder)
  params : List String
deriving DecidableEq

/-- The text of the statement. -/
def Insert.text (insert : Insert) : String :=
  "insert into " ++ Sql.quoteIdent insert.table ++ " (" ++
    join ", " (insert.columns.map fun column => Sql.quoteIdent column.1) ++ ") values (" ++
    join ", " (insert.columns.map fun column => column.2.text) ++ ")"

/-- The values a statement assigns. -/
def Insert.row (insert : Insert) : List (String × Option String) :=
  insert.columns.map fun column => (column.1, column.2.value insert.params)

def Insert.push (insert : Insert) (name : String) (bound : Placeholder × List String) : Insert :=
  { insert with columns := insert.columns ++ [(name, bound.1)], params := bound.2 }

/-- A writable column, where the body has a value for it. -/
def addWritable (object : List (String × Json)) (insert : Insert) (writable : Writable) :
    Result Insert :=
  match Assoc.lookup writable.name object with
  | none => .ok insert
  | some value => do
    let bound ← writablePlaceholder writable value insert.params
    .ok (insert.push writable.name bound)

/-- A column that the caller has computed. -/
def addExtra (insert : Insert) (column : String × Option String) : Insert :=
  insert.push column.1 (textPlaceholder column.2 insert.params)

/-- Why a record write failed. -/
inductive RecordWriteError where
  /-- The input did not validate. -/
  | validation (errors : ValidationErrors)
  /-- Everything else. -/
  | other (error : Error)
deriving DecidableEq

/-- The columns and the parameters of a create, once its input is validated. -/
def buildInsert (collection : Collection) (object : List (String × Json))
    (extra : List (String × Option String)) (newId : String) : Result Insert := do
  let id ← resolveId (.object object) newId
  let writables ← writableColumns collection
  let insert ← writables.foldlM (addWritable object)
    ⟨collection.name, [("id", .param 1 none)], [id]⟩
  .ok (extra.foldl addExtra insert)

/-- The statement of `create_with` for the body that its hooks leave. -/
def insertStatement (collection : Collection) (object : List (String × Json))
    (extra : List (String × Option String)) (newId : String) : Except RecordWriteError Insert := do
  (validate collection object false).mapError .validation
  (buildInsert collection object extra newId).mapError .other

/-! ### What the statement assigns -/

/-- Every parameter that is referred to is bound. -/
def Insert.Bound (insert : Insert) : Prop :=
  ∀ column ∈ insert.columns, ∀ index cast, column.2 = .param index cast →
    index - 1 < insert.params.length

/-- **One more column** is assigned the value that is bound for it; the others keep theirs. -/
theorem Insert.Bound.push {insert : Insert} (hbound : insert.Bound) (name : String)
    (value : Option String) (cast : Option Sql.PgType) :
    (insert.push name (bindValue value cast insert.params)).Bound ∧
      (insert.push name (bindValue value cast insert.params)).row = insert.row ++ [(name, value)] := by
  cases value with
  | none =>
    refine ⟨?_, by simp [Insert.row, Insert.push, bindValue, Placeholder.value]⟩
    intro column hcolumn index cast' heq
    rcases mem_append.mp hcolumn with hcolumn | hcolumn
    · exact hbound column hcolumn index cast' heq
    · obtain rfl := mem_singleton.mp hcolumn
      cases heq
  | some text =>
    constructor
    · intro column hcolumn index cast' heq
      simp only [Insert.push, bindValue, length_append, length_singleton]
      rcases mem_append.mp hcolumn with hcolumn | hcolumn
      · have := hbound column hcolumn index cast' heq
        omega
      · obtain rfl := mem_singleton.mp hcolumn
        obtain ⟨rfl, -⟩ := Placeholder.param.inj heq
        omega
    · simp only [Insert.row, Insert.push, bindValue, map_append, map_singleton]
      congr 1
      · refine map_congr_left fun column hcolumn => ?_
        cases hplaceholder : column.2 with
        | null => rfl
        | param index cast' =>
          have hlt := hbound column hcolumn index cast' hplaceholder
          rw [Placeholder.value, Placeholder.value, List.getElem?_append_left hlt]
      · simp [Placeholder.value]

/-- The value a writable column is given. -/
@[grind =]
def Writable.encode (writable : Writable) (value : Json) : Result (Option String) :=
  match writable.field with
  | none => .ok (systemValue writable.columnType value)
  | some field => encodeValue field value

/-- A writable column whose type is that of its field. -/
def Writable.Typed (writable : Writable) : Prop :=
  ∀ field, writable.field = some field → field.columnType = .ok writable.columnType

theorem writablePlaceholder_eq {writable : Writable} (htyped : writable.Typed) (value : Json)
    (params : List String) :
    ∃ cast, writablePlaceholder writable value params =
      (writable.encode value).map fun encoded => bindValue encoded cast params := by
  unfold writablePlaceholder Writable.encode
  cases hfield : writable.field with
  | none => exact ⟨none, rfl⟩
  | some field =>
    refine ⟨if writable.columnType = .text then none else some writable.columnType, ?_⟩
    dsimp only [placeholder]
    rw [htyped field hfield]
    cases encodeValue field value <;> rfl

/-- The values that the writable columns get from a body. -/
def Written (object : List (String × Json)) (writables : List Writable) (name : String)
    (value : Option String) : Prop :=
  ∃ writable ∈ writables, writable.name = name ∧
    ∃ raw, Assoc.lookup name object = some raw ∧ writable.encode raw = .ok value

/-- **The writable columns of a body**: each is assigned its encoded value, in turn. -/
theorem row_foldlM_addWritable {object : List (String × Json)} {writables : List Writable}
    (htyped : ∀ writable ∈ writables, writable.Typed) {insert built : Insert}
    (hbound : insert.Bound) (h : writables.foldlM (addWritable object) insert = .ok built) :
    built.Bound ∧ ∀ name value,
      (name, value) ∈ built.row ↔ (name, value) ∈ insert.row ∨ Written object writables name value := by
  induction writables generalizing insert with
  | nil =>
    obtain rfl := Except.ok.inj h
    exact ⟨hbound, fun name value => by simp [Written]⟩
  | cons writable writables ih =>
    rw [foldlM_cons] at h
    obtain ⟨next, hnext, h⟩ := bind_eq_ok.mp h
    have htyped' := forall_mem_cons.mp htyped
    have hcons (name : String) (value : Option String) :
        Written object (writable :: writables) name value ↔
          (writable.name = name ∧ ∃ raw, Assoc.lookup name object = some raw ∧
            writable.encode raw = .ok value) ∨ Written object writables name value := by
      simp [Written]
    unfold addWritable at hnext
    cases hlookup : Assoc.lookup writable.name object with
    | none =>
      rw [hlookup] at hnext
      obtain rfl := Except.ok.inj hnext
      obtain ⟨hbuilt, hrow⟩ := ih htyped'.2 hbound h
      refine ⟨hbuilt, fun name value => ?_⟩
      have hnot : ¬ (writable.name = name ∧ ∃ raw, Assoc.lookup name object = some raw ∧
          writable.encode raw = .ok value) := by
        rintro ⟨rfl, raw, hraw, -⟩
        cases hlookup.symm.trans hraw
      rw [hrow, hcons, or_iff_right hnot]
    | some raw =>
      rw [hlookup] at hnext
      obtain ⟨cast, hplaceholder⟩ := writablePlaceholder_eq htyped'.1 raw insert.params
      obtain ⟨bound, hpair, hnext⟩ := bind_eq_ok.mp hnext
      obtain rfl := Except.ok.inj hnext
      rw [hplaceholder] at hpair
      obtain ⟨encoded, hencoded, rfl⟩ := map_eq_ok.mp hpair
      obtain ⟨hpush, hpushed⟩ := hbound.push writable.name encoded cast
      obtain ⟨hbuilt, hrow⟩ := ih htyped'.2 hpush h
      refine ⟨hbuilt, fun name value => ?_⟩
      rw [hrow, hpushed, hcons, mem_append, or_assoc, mem_singleton]
      refine or_congr_right (or_congr_left ?_)
      rw [Prod.mk.injEq]
      constructor
      · rintro ⟨rfl, rfl⟩
        exact ⟨rfl, raw, hlookup, hencoded⟩
      · rintro ⟨rfl, other, hother, hvalue⟩
        obtain rfl := Option.some.inj (hlookup.symm.trans hother)
        exact ⟨rfl, Except.ok.inj (hvalue.symm.trans hencoded)⟩

theorem row_foldl_addExtra {extra : List (String × Option String)} {insert : Insert}
    (hbound : insert.Bound) : (extra.foldl addExtra insert).row = insert.row ++ extra := by
  induction extra generalizing insert with
  | nil => simp
  | cons column extra ih =>
    obtain ⟨hpush, hrow⟩ := hbound.push column.1 column.2 none
    rw [foldl_cons, addExtra, textPlaceholder, ih hpush, hrow]
    simp

/-- Two ways to a list of steps: that each goes through, and what they give. -/
theorem mem_writableColumns {collection : Collection} {writables : List Writable}
    (h : writableColumns collection = .ok writables) (writable : Writable) :
    writable ∈ writables ↔
      (∃ field ∈ collection.fields, isWritable collection field = true ∧
        field.columnType = .ok writable.columnType ∧ writable.name = field.name ∧
        writable.field = some field) ∨
      (collection.collectionType.isAuth = true ∧ (writable.name, writable.columnType) ∈
        writableAuthColumns ∧ writable.name ∉ collection.fields.map Field.name ∧
        writable.field = none) := by
  obtain ⟨columns, hcolumns, h⟩ := bind_eq_ok.mp h
  obtain rfl := Except.ok.inj h
  rw [mem_append, mem_of_mapM_iff hcolumns, mem_map]
  refine or_congr ?_ ?_
  · constructor
    · rintro ⟨field, hfield, hwritable⟩
      obtain ⟨hmem, hwrites⟩ := mem_filter.mp hfield
      obtain ⟨columnType, htype, hwritable⟩ := bind_eq_ok.mp hwritable
      obtain rfl := Except.ok.inj hwritable
      exact ⟨field, hmem, hwrites, htype, rfl, rfl⟩
    · rintro ⟨field, hmem, hwrites, htype, hname, hfield⟩
      refine ⟨field, mem_filter.mpr ⟨hmem, hwrites⟩, ?_⟩
      obtain ⟨name, columnType, field'⟩ := writable
      dsimp only at htype hname hfield
      rw [htype, hname, hfield]
      rfl
  · constructor
    · rintro ⟨⟨name, columnType⟩, hmem, rfl⟩
      obtain ⟨hcolumn, hwrites⟩ := mem_filter.mp hmem
      rw [Bool.and_eq_true, decide_eq_true_iff] at hwrites
      exact ⟨hwrites.1, hcolumn, hwrites.2, rfl⟩
    · rintro ⟨hauth, hcolumn, hname, hfield⟩
      obtain ⟨name, columnType, field'⟩ := writable
      dsimp only at hcolumn hname hfield
      refine ⟨(name, columnType), mem_filter.mpr ⟨hcolumn, ?_⟩, by rw [hfield]⟩
      rw [Bool.and_eq_true, decide_eq_true_iff]
      exact ⟨hauth, hname⟩

/-- **The values a create assigns**: its id, what the writable columns get from the body, and what the
caller has computed. -/
theorem mem_row_insertStatement {collection : Collection} {object : List (String × Json)}
    {extra : List (String × Option String)} {newId : String} {insert : Insert}
    (h : insertStatement collection object extra newId = .ok insert) :
    ∃ id writables, resolveId (.object object) newId = .ok id ∧
      writableColumns collection = .ok writables ∧ ∀ name value, (name, value) ∈ insert.row ↔
        (name = "id" ∧ value = some id) ∨ Written object writables name value ∨
          (name, value) ∈ extra := by
  obtain ⟨_, -, h⟩ := bind_eq_ok.mp h
  obtain ⟨id, hid, h⟩ := bind_eq_ok.mp (mapError_eq_ok.mp h)
  obtain ⟨writables, hwritables, h⟩ := bind_eq_ok.mp h
  obtain ⟨built, hbuilt, h⟩ := bind_eq_ok.mp h
  obtain rfl := Except.ok.inj h
  have htyped : ∀ writable ∈ writables, writable.Typed := by
    intro writable hmem field hfield
    rcases (mem_writableColumns hwritables writable).mp hmem with hmem | ⟨-, -, -, hnone⟩
    · obtain ⟨field', -, -, htype, -, hsome⟩ := hmem
      obtain rfl := Option.some.inj (hsome.symm.trans hfield)
      exact htype
    · cases hnone.symm.trans hfield
  have hstart : Insert.Bound ⟨collection.name, [("id", .param 1 none)], [id]⟩ := by
    intro column hcolumn index cast heq
    obtain rfl := mem_singleton.mp hcolumn
    obtain ⟨rfl, -⟩ := Placeholder.param.inj heq
    exact Nat.one_pos
  obtain ⟨hbound, hrow⟩ := row_foldlM_addWritable htyped hstart hbuilt
  refine ⟨id, writables, hid, hwritables, fun name value => ?_⟩
  rw [row_foldl_addExtra hbound, mem_append, hrow, or_assoc]
  refine or_congr_left ?_
  simp [Insert.row, Placeholder.value]

/-! ### What is asked of a create -/

/-- **No `not null` column is left without a value**: what is assigned to it is not null, and where
nothing is, it has a default. -/
def Insert.RespectsNotNull (insert : Insert) (columns : List Column) : Prop :=
  ∀ column ∈ columns, column.notNull = true →
    (∀ value, (column.name, value) ∈ insert.row → value ≠ none) ∧
      ((∀ value, (column.name, value) ∉ insert.row) → column.default ≠ none)

/-- Every supplied value of a writable field is encoded. -/
def EncodesSupplied (collection : Collection) (object : List (String × Json)) : Prop :=
  ∃ writables, writableColumns collection = .ok writables ∧
    ∀ writable ∈ writables, ∀ field, writable.field = some field →
      ∀ value, Assoc.lookup writable.name object = some value →
        ∃ encoded, encodeValue field value = .ok encoded

/-- What the callers compute: credentials, and of an auth collection alone. -/
def CredentialsOnly (collection : Collection) (extra : List (String × Option String)) : Prop :=
  ∀ column ∈ extra, collection.collectionType = .auth ∧ column.1 ∈ credentialColumns

theorem credentialsOnly_nil (collection : Collection) : CredentialsOnly collection [] :=
  fun _ h => absurd h not_mem_nil

/-- The dates the server owns have a default where they are required. -/
def DatesDefaulted (collection : Collection) : Prop :=
  ∀ field ∈ collection.fields, field.fieldType = .autodate → field.required = true →
    ∃ text, defaultSql field.fieldType field.options = .ok (some text)

/-! ### Valid collections -/

section Valid

variable {collection : Collection} {object : List (String × Json)}
  {extra : List (String × Option String)} {newId : String} {insert : Insert}

/-- The names and the types of the fields of a collection that is accepted. -/
structure WellFormed (collection : Collection) : Prop where
  nodup : (collection.fields.map Field.name).Nodup
  system : ∀ field ∈ collection.fields, field.name ∉ systemColumns
  auth : collection.collectionType = .auth →
    ∀ field ∈ collection.fields, field.name ∉ authSystemColumns
  typed : ∀ field ∈ collection.fields, ∃ columnType, field.columnType = .ok columnType

theorem wellFormed_of_validate (h : collection.validate = .ok ()) : WellFormed collection := by
  obtain ⟨hnodup, hvalid⟩ := fields_of_validate h
  refine ⟨hnodup, fun field hfield => (name_of_validate (hvalid field hfield)).1,
    fun hauth field hfield => (name_of_validate (hvalid field hfield)).2 hauth, ?_⟩
  intro field hfield
  obtain ⟨_, -, hoptions⟩ := bind_eq_ok.mp (hvalid field hfield)
  obtain ⟨_, -, hoptions⟩ := bind_eq_ok.mp hoptions
  exact ⟨_, columnType_eq_ok.mpr ⟨hoptions, rfl⟩⟩

theorem credentialColumns_subset : credentialColumns ⊆ authSystemColumns := by decide

theorem WellFormed.isWritable_iff (h : WellFormed collection) {field : Field}
    (hfield : field ∈ collection.fields) :
    isWritable collection field = true ↔ field.fieldType ≠ .autodate := by
  have hnot :
      (collection.collectionType.isAuth && decide (field.name ∈ credentialColumns)) = false := by
    rw [Bool.and_eq_false_imp]
    intro hauth
    rw [decide_eq_false_iff_not]
    exact fun hmem => h.auth (of_decide_eq_true hauth) field hfield (credentialColumns_subset hmem)
  rw [isWritable, hnot]
  simp

theorem exists_writableColumns
    (htyped : ∀ field ∈ collection.fields, ∃ columnType, field.columnType = .ok columnType) :
    ∃ writables, writableColumns collection = .ok writables := by
  obtain ⟨columns, hcolumns⟩ := @exists_mapM _ _ (fun field : Field => do
    let columnType ← field.columnType
    .ok (⟨field.name, columnType, some field⟩ : Writable))
    (collection.fields.filter (isWritable collection)) fun field hfield => by
      obtain ⟨columnType, htype⟩ := htyped field (mem_of_mem_filter hfield)
      exact ⟨_, bind_eq_ok.mpr ⟨columnType, htype, rfl⟩⟩
  exact ⟨_, bind_eq_ok.mpr ⟨columns, hcolumns, rfl⟩⟩

/-- What a create assigns to a field: its encoded value, and nothing to a date the server owns. -/
theorem WellFormed.mem_row_field (h : WellFormed collection) (hextra : CredentialsOnly collection extra)
    (hinsert : insertStatement collection object extra newId = .ok insert) {field : Field}
    (hfield : field ∈ collection.fields) (value : Option String) :
    (field.name, value) ∈ insert.row ↔ field.fieldType ≠ .autodate ∧
      ∃ raw, Assoc.lookup field.name object = some raw ∧ encodeValue field raw = .ok value := by
  obtain ⟨id, writables, -, hwritables, hrow⟩ := mem_row_insertStatement hinsert
  have hid : field.name ≠ "id" := fun heq => h.system field hfield (heq ▸ by decide)
  have hnot : (field.name, value) ∉ extra := by
    intro hmem
    obtain ⟨hauth, hcredential⟩ := hextra _ hmem
    exact h.auth hauth field hfield (credentialColumns_subset hcredential)
  rw [hrow, or_iff_left hnot, or_iff_right (fun heq => hid heq.1)]
  constructor
  · rintro ⟨writable, hmem, hname, raw, hraw, hencode⟩
    rcases (mem_writableColumns hwritables writable).mp hmem with hmem | ⟨-, -, hsystem, -⟩
    · obtain ⟨other, hother, hwrites, -, hotherName, hsome⟩ := hmem
      obtain rfl := inj_on_of_nodup_map h.nodup hother hfield (hotherName.symm.trans hname)
      rw [Writable.encode, hsome] at hencode
      exact ⟨(h.isWritable_iff hfield).mp hwrites, raw, hraw, hencode⟩
    · exact absurd (mem_map_of_mem hfield) (hname ▸ hsystem)
  · rintro ⟨htype, raw, hraw, hencode⟩
    obtain ⟨columnType, hcolumnType⟩ := h.typed field hfield
    refine ⟨⟨field.name, columnType, some field⟩, ?_, rfl, raw, hraw, hencode⟩
    exact (mem_writableColumns hwritables _).mpr
      (.inl ⟨field, hfield, (h.isWritable_iff hfield).mpr htype, hcolumnType, rfl, rfl⟩)

/-- What a create assigns to the column `verified` of an account. -/
theorem WellFormed.mem_row_verified (h : WellFormed collection)
    (hextra : CredentialsOnly collection extra) (hauth : collection.collectionType = .auth)
    (hinsert : insertStatement collection object extra newId = .ok insert) (value : Option String) :
    ("verified", value) ∈ insert.row ↔
      ∃ raw, Assoc.lookup "verified" object = some raw ∧ systemValue .boolean raw = value := by
  obtain ⟨id, writables, -, hwritables, hrow⟩ := mem_row_insertStatement hinsert
  have hfields : ∀ field ∈ collection.fields, field.name ≠ "verified" := fun field hfield heq =>
    h.auth hauth field hfield (heq ▸ by decide)
  have hcredential : "verified" ∉ credentialColumns := by decide
  have hnot : ("verified", value) ∉ extra := fun hmem => hcredential (hextra _ hmem).2
  rw [hrow, or_iff_left hnot, or_iff_right (fun heq => absurd heq.1 (by decide))]
  constructor
  · rintro ⟨writable, hmem, hname, raw, hraw, hencode⟩
    rcases (mem_writableColumns hwritables writable).mp hmem with hmem | ⟨-, hsystem, -, hnone⟩
    · obtain ⟨field, hfield, -, -, hfieldName, -⟩ := hmem
      exact absurd (hfieldName.symm.trans hname) (hfields field hfield)
    · have htype : writable.columnType = .boolean := by
        simpa [writableAuthColumns, hname] using hsystem
      rw [Writable.encode, hnone, htype] at hencode
      exact ⟨raw, hraw, Except.ok.inj hencode⟩
  · rintro ⟨raw, hraw, rfl⟩
    refine ⟨⟨"verified", .boolean, none⟩, ?_, rfl, raw, hraw, rfl⟩
    refine (mem_writableColumns hwritables _).mpr (.inr ⟨decide_eq_true hauth, by decide, ?_, rfl⟩)
    rintro hmem
    obtain ⟨field, hfield, hname⟩ := mem_map.mp hmem
    exact hfields field hfield hname

/-- A column that a create leaves alone. -/
theorem notMem_row (hextra : CredentialsOnly collection extra)
    (hinsert : insertStatement collection object extra newId = .ok insert) {name : String}
    (hid : name ≠ "id") (hfields : ∀ field ∈ collection.fields, field.name ≠ name)
    (hsystem : name ∉ writableAuthColumns.map Prod.fst) (hcredential : name ∉ credentialColumns)
    (value : Option String) : (name, value) ∉ insert.row := by
  obtain ⟨id, writables, -, hwritables, hrow⟩ := mem_row_insertStatement hinsert
  rw [hrow]
  rintro (⟨heq, -⟩ | ⟨writable, hmem, hname, -⟩ | hmem)
  · exact hid heq
  · rcases (mem_writableColumns hwritables writable).mp hmem with hmem | ⟨-, hcolumn, -⟩
    · obtain ⟨field, hfield, -, -, hfieldName, -⟩ := hmem
      exact hfields field hfield (hfieldName.symm.trans hname)
    · exact hsystem (hname ▸ mem_map_of_mem hcolumn)
  · exact hcredential (hextra _ hmem).2

theorem exists_foldlM_addWritable {writables : List Writable}
    (htyped : ∀ writable ∈ writables, writable.Typed)
    (hencodes : ∀ writable ∈ writables, ∀ value, Assoc.lookup writable.name object = some value →
      ∃ encoded, writable.encode value = .ok encoded) (insert : Insert) :
    ∃ built, writables.foldlM (addWritable object) insert = .ok built := by
  induction writables generalizing insert with
  | nil => exact ⟨insert, rfl⟩
  | cons writable writables ih =>
    rw [forall_mem_cons] at htyped hencodes
    obtain ⟨next, hnext⟩ : ∃ next, addWritable object insert writable = .ok next := by
      unfold addWritable
      cases hlookup : Assoc.lookup writable.name object with
      | none => exact ⟨insert, rfl⟩
      | some value =>
        obtain ⟨encoded, hencoded⟩ := hencodes.1 value hlookup
        obtain ⟨cast, hplaceholder⟩ := writablePlaceholder_eq htyped.1 value insert.params
        dsimp only
        rw [hplaceholder, hencoded]
        exact ⟨_, rfl⟩
    obtain ⟨built, hbuilt⟩ := ih htyped.2 hencodes.2 next
    exact ⟨built, by rw [foldlM_cons, hnext]; exact hbuilt⟩

/-- **Every supplied value is encoded** where the collection and the body are accepted. -/
theorem WellFormed.encodesSupplied (h : WellFormed collection)
    (hinput : validate collection object false = .ok ()) : EncodesSupplied collection object := by
  obtain ⟨writables, hwritables⟩ := exists_writableColumns h.typed
  refine ⟨writables, hwritables, fun writable hmem field hfield value hvalue => ?_⟩
  rcases (mem_writableColumns hwritables writable).mp hmem with hmem | ⟨-, -, -, hnone⟩
  · obtain ⟨other, hother, hwrites, -, hname, hsome⟩ := hmem
    obtain rfl := Option.some.inj (hsome.symm.trans hfield)
    obtain ⟨encoded, hencoded, -⟩ := encodeValue_of_accepted ((h.isWritable_iff hother).mp hwrites)
      ((accepted_of_validate hinput).fields other hother) (hname ▸ hvalue)
    exact ⟨encoded, hencoded⟩
  · cases hnone.symm.trans hfield

/-- **A create builds its statement** where the body is accepted and its id is. -/
theorem WellFormed.exists_insertStatement (h : WellFormed collection)
    (hinput : validate collection object false = .ok ())
    (hid : ∃ id, resolveId (.object object) newId = .ok id) :
    ∃ insert, insertStatement collection object extra newId = .ok insert := by
  obtain ⟨id, hid⟩ := hid
  obtain ⟨writables, hwritables, hencodes⟩ := h.encodesSupplied hinput
  have htyped : ∀ writable ∈ writables, writable.Typed := by
    intro writable hmem field hfield
    rcases (mem_writableColumns hwritables writable).mp hmem with hmem | ⟨-, -, -, hnone⟩
    · obtain ⟨field', -, -, htype, -, hsome⟩ := hmem
      obtain rfl := Option.some.inj (hsome.symm.trans hfield)
      exact htype
    · cases hnone.symm.trans hfield
  have hencode : ∀ writable ∈ writables, ∀ value, Assoc.lookup writable.name object = some value →
      ∃ encoded, writable.encode value = .ok encoded := by
    intro writable hmem value hvalue
    unfold Writable.encode
    cases hfield : writable.field with
    | none => exact ⟨_, rfl⟩
    | some field => exact hencodes writable hmem field hfield value hvalue
  obtain ⟨built, hbuilt⟩ := exists_foldlM_addWritable htyped hencode
    ⟨collection.name, [("id", .param 1 none)], [id]⟩
  have hbuild : buildInsert collection object extra newId = .ok (extra.foldl addExtra built) :=
    bind_eq_ok.mpr ⟨id, hid, bind_eq_ok.mpr ⟨writables, hwritables,
      bind_eq_ok.mpr ⟨built, hbuilt, rfl⟩⟩⟩
  exact ⟨_, by rw [insertStatement, hinput, hbuild]; rfl⟩

end Valid

/-! ### The table -/

section Table

variable {collection : Collection} {resolveTable : String → Option String} {table : String}
  {columns : List Column}

/-- The columns of a table: those it has before any field, and one for each field. -/
theorem mem_columns (h : createTableStatement collection resolveTable =
    .ok (.createTable table columns)) (column : Column) :
    column ∈ columns ↔ column ∈ builtinColumns collection.collectionType ∨
      ∃ field ∈ collection.fields, columnDefinition field resolveTable = .ok column := by
  obtain ⟨fieldColumns, hfields, hstatement⟩ := createTableStatement_eq_ok h
  obtain ⟨-, rfl⟩ := Statement.createTable.inj hstatement
  rw [mem_append]
  refine or_congr_right ?_
  have hforall := columnDefinitions_eq_ok.mp hfields
  constructor
  · intro hmem
    exact exists_of_forall₂ hforall.flip column hmem
  · rintro ⟨field, hfield, hcolumn⟩
    obtain ⟨other, hother, heq⟩ := exists_of_forall₂ hforall field hfield
    exact columnDefinition_unique hcolumn heq ▸ hother

theorem exists_columnDefinition (h : createTableStatement collection resolveTable =
    .ok (.createTable table columns)) {field : Field} (hfield : field ∈ collection.fields) :
    ∃ column, columnDefinition field resolveTable = .ok column := by
  obtain ⟨fieldColumns, hfields, -⟩ := createTableStatement_eq_ok h
  obtain ⟨column, -, hcolumn⟩ := exists_of_forall₂ (columnDefinitions_eq_ok.mp hfields) field hfield
  exact ⟨column, hcolumn⟩

theorem columnDefinition_eq_ok {field : Field} {column : Column}
    (h : columnDefinition field resolveTable = .ok column) :
    column.name = field.name ∧ column.notNull = field.required ∧
      defaultSql field.fieldType field.options = .ok column.default := by
  obtain ⟨columnType, -, h⟩ := bind_eq_ok.mp h
  obtain ⟨default, hdefault, h⟩ := bind_eq_ok.mp h
  obtain ⟨references, -, h⟩ := bind_eq_ok.mp h
  obtain rfl := Except.ok.inj h
  exact ⟨rfl, rfl, hdefault⟩

variable {object : List (String × Json)} {extra : List (String × Option String)} {newId : String}
  {insert : Insert}

/-- A column that a create leaves to its default. -/
theorem respects_of_notMem {column : Column}
    (hnot : ∀ value, (column.name, value) ∉ insert.row) (hdefault : column.default ≠ none) :
    (∀ value, (column.name, value) ∈ insert.row → value ≠ none) ∧
      ((∀ value, (column.name, value) ∉ insert.row) → column.default ≠ none) :=
  ⟨fun value hmem => absurd hmem (hnot value), fun _ => hdefault⟩

theorem WellFormed.mem_row_id (h : WellFormed collection) (hextra : CredentialsOnly collection extra)
    (hinsert : insertStatement collection object extra newId = .ok insert) :
    ∃ id, ∀ value, ("id", value) ∈ insert.row ↔ value = some id := by
  obtain ⟨id, writables, -, hwritables, hrow⟩ := mem_row_insertStatement hinsert
  refine ⟨id, fun value => ?_⟩
  have hcredential : "id" ∉ credentialColumns := by decide
  have hsystem : "id" ∉ writableAuthColumns.map Prod.fst := by decide
  rw [hrow, or_iff_left (b := Written _ _ _ _ ∨ _), and_iff_right rfl]
  rintro (⟨writable, hmem, hname, -⟩ | hmem)
  · rcases (mem_writableColumns hwritables writable).mp hmem with hmem | ⟨-, hcolumn, -⟩
    · obtain ⟨field, hfield, -, -, hfieldName, -⟩ := hmem
      exact h.system field hfield (hfieldName ▸ hname ▸ mem_cons_self)
    · exact hsystem (hname ▸ mem_map_of_mem hcolumn)
  · exact hcredential (hextra _ hmem).2

/-- **The columns that every table has** are filled, except `verified` where a body says `null`. -/
theorem WellFormed.respects_builtin (h : WellFormed collection)
    (hextra : CredentialsOnly collection extra)
    (hinsert : insertStatement collection object extra newId = .ok insert)
    (hverified : collection.collectionType = .auth →
      Assoc.lookup "verified" object ≠ some .null) :
    insert.RespectsNotNull (builtinColumns collection.collectionType) := by
  have hother {name : String} (hid : name ≠ "id") (hmem : name ∈ systemColumns)
      (hsystem : name ∉ writableAuthColumns.map Prod.fst) (hcredential : name ∉ credentialColumns) :
      ∀ value, (name, value) ∉ insert.row :=
    notMem_row hextra hinsert hid (fun field hfield heq => h.system field hfield (heq ▸ hmem))
      hsystem hcredential
  intro column hcolumn hnotNull
  rcases mem_append.mp hcolumn with hcolumn | hcolumn
  · simp only [systemColumnDefinitions, mem_cons, not_mem_nil, or_false] at hcolumn
    rcases hcolumn with rfl | rfl | rfl
    · obtain ⟨id, hid⟩ := h.mem_row_id hextra hinsert
      refine ⟨fun value hmem => ?_, fun hnone => absurd ((hid _).mpr rfl) (hnone _)⟩
      rw [(hid value).mp hmem]
      exact Option.some_ne_none id
    · exact respects_of_notMem (hother (by decide) (by decide) (by decide) (by decide)) (by decide)
    · exact respects_of_notMem (hother (by decide) (by decide) (by decide) (by decide)) (by decide)
  · split_ifs at hcolumn with hauth
    · simp only [authColumnDefinitions, mem_cons, not_mem_nil, or_false] at hcolumn
      rcases hcolumn with rfl | rfl | rfl | rfl | rfl <;> try cases hnotNull
      · refine ⟨fun value hmem => ?_, fun _ => by decide⟩
        obtain ⟨raw, hraw, rfl⟩ := (h.mem_row_verified hextra hauth hinsert value).mp hmem
        have hnull : raw.isNull = false := by
          cases raw <;> first | rfl | exact absurd hraw (hverified hauth)
        simp [systemValue, hnull]
      · refine respects_of_notMem (notMem_row hextra hinsert (by decide) ?_ (by decide) (by decide))
          (by decide)
        exact fun field hfield heq => h.auth hauth field hfield (heq ▸ by decide)
    · cases hcolumn

/-- **The columns of the fields** are filled where the required dates have a default. -/
theorem WellFormed.respects_field (h : WellFormed collection)
    (hextra : CredentialsOnly collection extra)
    (hinput : validate collection object false = .ok ())
    (hinsert : insertStatement collection object extra newId = .ok insert) {field : Field}
    (hfield : field ∈ collection.fields) {column : Column}
    (hcolumn : columnDefinition field resolveTable = .ok column) (hnotNull : column.notNull = true)
    (hdefault : field.fieldType = .autodate → column.default ≠ none) :
    (∀ value, (column.name, value) ∈ insert.row → value ≠ none) ∧
      ((∀ value, (column.name, value) ∉ insert.row) → column.default ≠ none) := by
  obtain ⟨hname, hrequired, -⟩ := columnDefinition_eq_ok hcolumn
  rw [hnotNull] at hrequired
  rw [hname]
  have hrow := h.mem_row_field hextra hinsert hfield
  have hfailure := (accepted_of_validate hinput).fields field hfield
  by_cases htype : field.fieldType = .autodate
  · exact ⟨fun value hmem => absurd htype ((hrow value).mp hmem).1, fun _ => hdefault htype⟩
  · obtain ⟨raw, hraw, -⟩ := exists_of_required htype hrequired.symm hfailure
    obtain ⟨encoded, hencoded, hsome⟩ := encodeValue_of_accepted htype hfailure hraw
    refine ⟨fun value hmem => ?_, fun hnone => absurd ((hrow encoded).mpr ?_) (hnone encoded)⟩
    · obtain ⟨-, other, hother, hvalue⟩ := (hrow value).mp hmem
      obtain rfl := Option.some.inj (hraw.symm.trans hother)
      obtain rfl := Except.ok.inj (hvalue.symm.trans hencoded)
      exact hsome hrequired.symm
    · exact ⟨htype, raw, hraw, hencoded⟩

end Table

end LazyPock.Records

namespace LazyPock

open Ddl Records Validation

/-- **When a validated create keeps the `not null` columns**: when the body of an account does not say
`"verified": null` and every required date that the server owns has a default. -/
theorem validated_create_iff {collection : Collection} {resolveTable : String → Option String}
    {table : String} {columns : List Column} {object : List (String × Json)}
    {extra : List (String × Option String)} {newId : String}
    (hcollection : collection.validate = .ok ())
    (htable : createTableStatement collection resolveTable = .ok (.createTable table columns))
    (hinput : validate collection object false = .ok ())
    (hextra : CredentialsOnly collection extra) :
    (EncodesSupplied collection object ∧
      ∀ insert, insertStatement collection object extra newId = .ok insert →
        insert.RespectsNotNull columns) ↔
    ((∃ id, resolveId (.object object) newId = .ok id) →
      (collection.collectionType = .auth → Assoc.lookup "verified" object ≠ some .null) ∧
        DatesDefaulted collection) := by
  have hwell := wellFormed_of_validate hcollection
  rw [and_iff_right (hwell.encodesSupplied hinput)]
  constructor
  · intro hall hid
    obtain ⟨insert, hinsert⟩ := hwell.exists_insertStatement hinput hid
    have hrespects := hall insert hinsert
    constructor
    · intro hauth hnull
      have hmem := (hwell.mem_row_verified hextra hauth hinsert none).mpr ⟨.null, hnull, rfl⟩
      have hcolumn : (⟨"verified", .boolean, true, some "false", none⟩ : Column) ∈ columns :=
        (mem_columns htable _).mpr (.inl (by rw [hauth]; decide))
      exact (hrespects _ hcolumn rfl).1 none hmem rfl
    · intro field hfield htype hrequired
      obtain ⟨column, hcolumn⟩ := exists_columnDefinition htable hfield
      obtain ⟨hname, hnotNull, hdefault⟩ := columnDefinition_eq_ok hcolumn
      have hmem := (mem_columns htable column).mpr (.inr ⟨field, hfield, hcolumn⟩)
      have hnone := (hrespects column hmem (hnotNull.trans hrequired)).2 fun value hvalue => by
        rw [hname] at hvalue
        exact ((hwell.mem_row_field hextra hinsert hfield value).mp hvalue).1 htype
      obtain ⟨text, htext⟩ := Option.ne_none_iff_exists'.mp hnone
      exact ⟨text, htext ▸ hdefault⟩
  · intro hcond insert hinsert column hcolumn hnotNull
    obtain ⟨id, -, hid, -⟩ := mem_row_insertStatement hinsert
    obtain ⟨hverified, hdates⟩ := hcond ⟨id, hid⟩
    rcases (mem_columns htable column).mp hcolumn with hbuiltin | ⟨field, hfield, hdefinition⟩
    · exact hwell.respects_builtin hextra hinsert hverified column hbuiltin hnotNull
    · obtain ⟨-, hrequired, hdefault⟩ := columnDefinition_eq_ok hdefinition
      refine hwell.respects_field hextra hinput hinsert hfield hdefinition hnotNull fun htype => ?_
      obtain ⟨text, htext⟩ := hdates field hfield htype (hrequired.symm.trans hnotNull)
      rw [Except.ok.inj (hdefault.symm.trans htext)]
      exact Option.some_ne_none text

section Accounts

/-- An auth collection whose accounts have a title. -/
def titledAccounts : Collection where
  id := "c_members"
  name := "members"
  collectionType := .auth
  options := .object []
  rules := .object []
  fields := [⟨"f_title", "c_members", "title", .text, true, false, .object [], 0⟩]

/-- The columns of its table. -/
def titledColumns : List Column :=
  builtinColumns .auth ++ [⟨"title", .text, true, none, none⟩]

/-- A body for it, with a value for `verified`. -/
def titledBody (verified : Json) : List (String × Json) :=
  [("email", .string "a@b.co"), ("title", .string "Dr"), ("verified", verified)]

theorem validated_create_iff_titled :
    (EncodesSupplied titledAccounts (titledBody (.bool true)) ∧
      ∀ insert, insertStatement titledAccounts (titledBody (.bool true)) [] "abcdefghijklmno" =
        .ok insert → insert.RespectsNotNull titledColumns) ↔
    ((∃ id, resolveId (.object (titledBody (.bool true))) "abcdefghijklmno" = .ok id) →
      (titledAccounts.collectionType = .auth →
        Assoc.lookup "verified" (titledBody (.bool true)) ≠ some .null) ∧
        DatesDefaulted titledAccounts) := by
  have htable : createTableStatement titledAccounts (fun _ => none) =
      .ok (.createTable "members" titledColumns) := rfl
  exact validated_create_iff (by decide) htable (by decide)
    (credentialsOnly_nil titledAccounts)

/-- **An account that is said to be `"verified": null`**: the body passes, and null is assigned. -/
theorem create_assigns_null :
    ¬ ∀ (collection : Collection) (resolveTable : String → Option String) (table : String)
      (columns : List Column) (object : List (String × Json))
      (extra : List (String × Option String)) (newId : String),
      collection.validate = .ok () →
      createTableStatement collection resolveTable = .ok (.createTable table columns) →
      validate collection object false = .ok () → CredentialsOnly collection extra →
      EncodesSupplied collection object ∧
        ∀ insert, insertStatement collection object extra newId = .ok insert →
          insert.RespectsNotNull columns := by
  intro hall
  have hinsert : insertStatement titledAccounts (titledBody .null) [] "abcdefghijklmno" =
      .ok ⟨"members", [("id", .param 1 none), ("title", .param 2 none), ("email", .param 3 none),
        ("verified", .null)], ["abcdefghijklmno", "Dr", "a@b.co"]⟩ := by
    decide
  have hrespects := (hall titledAccounts (fun _ => none) "members" titledColumns (titledBody .null) []
    "abcdefghijklmno" (by decide) rfl (by decide)
    (credentialsOnly_nil titledAccounts)).2 _ hinsert
  exact (hrespects ⟨"verified", .boolean, true, some "false", none⟩ (by decide) rfl).1 none
    (by decide) rfl

end Accounts

end LazyPock
