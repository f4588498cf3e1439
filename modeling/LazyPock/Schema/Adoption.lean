import LazyPock.Machine.Runs
import LazyPock.Schema.Security
import Mathlib.Data.List.Dedup

/-!
# Adopting existing tables at the start of a server

`crates/db/src/reflect.rs` turns the tables of a database into collections, and a server does so when
it starts, after it has made sure of its `users` (`crates/db/src/defaults.rs`). Each statement of an
adoption is committed on its own: first every table is registered with its columns, then the rules
of each are applied, which turns row-level security on.

A table that is registered and not reached by the second part is exposed, and stays so: the next
start passes over what is a collection already. What the database says of its tables is a parameter.

## Main definitions

* `Reflect.Column`, `Reflect.mapColumn`, `Reflect.skipReason`.
* `Reflect.reflect`, `Reflect.reflectUntil`: an adoption, and one that ends early.
* `Reflect.ensureUsers`, `Reflect.startUp`.
* `Reflect.Step`: a server that starts, works on its collections and stops at any point.
* `Reflect.Covered`: what an adoption that ends early has registered is under row-level
  security.

## Main results

* `Reflect.startUp_eq_error`: a start that fails is one that ends early.
* `Reflect.startUntil_secured`: what a start leaves where it ends.
* `Reflect.secured_of_run`: every table of a collection is under row-level security.
* `Reflect.stopped_adoption_exposes`: a table that a stop leaves open to everyone.
-/

namespace LazyPock.Reflect

open Machine Text Saga Collections

/-! ### Columns -/

/-- A column as the database describes it. -/
structure Column where
  table : String
  name : String
  /-- The Postgres type name. -/
  dataType : String
  typeOid : ℕ
  notNull : Bool
  isPrimary : Bool
  /-- Whether the column is the whole of a unique index. -/
  isUnique : Bool
  position : ℤ
  /-- The text of the default. -/
  default : Option String

/-- What the database says of its tables: `load_columns` and `load_enums`. -/
structure Catalog where
  columns : Db → List Column
  enums : Db → List (ℕ × List String)

/-- The field type and options a column maps onto. -/
def mapColumn (column : Column) (enumLabels : Option (List String)) :
    FieldType × List (String × Json) :=
  match enumLabels with
  | some labels =>
    (.select, [("maxSelect", .ofInt 1), ("values", .array (labels.map Json.string))])
  | none =>
    match stripPrefix "_" column.dataType with
    | some element =>
      (.json, [("element", .string element), ("reflectedType", .string column.dataType)])
    | none =>
      if column.name ∈ ["created_at", "updated_at"] ∧ column.default.any (Text.contains "now()") then
        (.autodate, [])
      else if column.dataType ∈ ["text", "varchar", "bpchar", "citext", "name", "uuid"] then (.text, [])
      else if column.dataType ∈
          ["int2", "int4", "int8", "float4", "float8", "numeric", "money"] then (.number, [])
      else if column.dataType = "bool" then (.bool, [])
      else if column.dataType ∈ ["timestamptz", "timestamp", "date", "time", "timetz"] then (.date, [])
      else if column.dataType ∈ ["json", "jsonb"] then (.json, [])
      else (.text, [("reflectedType", .string column.dataType)])

/-- The options of the field of a column. -/
def fieldOptions (column : Column) (options : List (String × Json)) : List (String × Json) :=
  let options := Assoc.insert "reflected" (.bool true) options
  let options := if column.isPrimary then Assoc.insert "primaryKey" (.bool true) options else options
  match column.default with
  | some default => Assoc.insert "default" (.string default) options
  | none => options

/-- Whether a table should be left alone, and why. -/
def skipReason (table : String) (known : List String) : Option String :=
  if table ∈ known then some "already a collection"
  else if startsWith "_" table then some "an internal table"
  else if startsWith "pg_" table ∨ startsWith "sql_" table then some "a Postgres internal table"
  else if table = "schema_migrations" then some "another framework's migration ledger"
  else none

/-- The columns by their tables, in the order of the names. -/
def byTable (columns : List Column) : List (String × List Column) :=
  ((columns.map Column.table).dedup.insertionSort (· ≤ ·)).map fun table =>
    (table, columns.filter fun c => c.table = table)

/-! ### Registering -/

/-- A statement of the first part: a row of `_collections`, or of `_fields`. -/
inductive Registration where
  | collection (collection : Collection)
  | field (field : Field)

/-- The ids an adoption draws, by the position of the table and of the column. -/
structure Ids where
  collection : ℕ → String
  field : ℕ → ℕ → String

/-- The rows of a table. -/
def registerTable (enums : List (ℕ × List String)) (ids : Ids) (index : ℕ) (table : String)
    (columns : List Column) : List Registration :=
  let primary := (columns.find? Column.isPrimary).map Column.name
  let options : Json := .object [("columns", .ofInt columns.length),
    ("primaryKey", (primary.map Json.string).getD .null), ("reflected", .bool true)]
  .collection ⟨ids.collection index, table, .base, options, .object [], []⟩ ::
    columns.zipIdx.map fun (column, position) =>
      let labels := (enums.find? fun e => e.1 = column.typeOid).map Prod.snd
      let (fieldType, options) := mapColumn column labels
      .field ⟨ids.field index position, ids.collection index, column.name, fieldType,
        column.notNull && !column.isPrimary && column.default.isNone,
        column.isUnique && !column.isPrimary, .object (fieldOptions column options),
        column.position⟩

section

variable (catalog : Catalog) (db : Db)

def known : List String := db.collections.map Collection.name

/-- The tables that are adopted, with their columns. -/
def adoptable : List (String × List Column) :=
  (byTable (catalog.columns db)).filter fun entry => (skipReason entry.1 (known db)).isNone

/-- The tables that are left alone, and why. -/
def skipped : List (String × String) :=
  (byTable (catalog.columns db)).filterMap fun entry =>
    (skipReason entry.1 (known db)).map fun reason => (entry.1, reason)

/-- The statements of the first part, in order. -/
def registrations (ids : Ids) : List Registration :=
  (adoptable catalog db).zipIdx.flatMap fun ((table, columns), index) =>
    registerTable (catalog.enums db) ids index table columns

end

/-- What an adoption did. -/
structure ReflectionReport where
  adopted : List String
  skipped : List (String × String)
  fields : ℕ

/-! ### An adoption -/

section

variable (sha : String → String) (server : Server)
  (toQuery : Json → List Collection → Result String) (catalog : Catalog)

def Registration.run : Registration → Tx Db Error Unit
  | .collection c => Tx.run (fun db => db.insertCollection c) (dbError server)
  | .field f => insertField server f

/-- A part of the first part: each statement is committed on its own. -/
def register (registrations : List Registration) : Saga Db Error Unit :=
  registrations.forM fun registration => Collections.transaction (registration.run server)

/-- Apply the rules of an adopted table, which are none, in one batch. -/
def secure (collections : List Collection) (name : String) : Saga Db Error Unit :=
  match collections.find? fun c => c.name = name with
  | none => pure ()
  | some collection => do
    let context ← lift (FilterContext.forCollection collection collections)
    Collections.transaction (applyPolicies server collection context)

/-- The second part, for some of the adopted tables. -/
def secureAll (names : List String) : Saga Db Error Unit := do
  let collections ← read fun db => .ok (list db)
  names.forM (secure server collections)

/-- Reflect every unadopted table into a collection. -/
def reflect (ids : Ids) : Saga Db Error ReflectionReport := do
  let db ← read fun db => .ok db
  let adopted := (adoptable catalog db).map Prod.fst
  register server (registrations catalog db ids)
  onlyIf (adopted ≠ []) (secureAll server adopted)
  pure ⟨adopted, skipped catalog db, ((adoptable catalog db).map fun e => e.2.length).sum⟩

/-- An adoption that ends after some statements of the first part; if these are all, then after the
rules of some tables. -/
def reflectUntil (ids : Ids) (registered secured : ℕ) : Saga Db Error Unit := do
  let db ← read fun db => .ok db
  let all := registrations catalog db ids
  register server (all.take registered)
  onlyIf (all.length ≤ registered)
    (secureAll server (((adoptable catalog db).map Prod.fst).take secured))

/-! ### The start of a server -/

/-- The built-in `users`: an account may be read and changed by itself only, and anyone may
register. -/
def usersCollection : CreateCollection where
  name := "users"
  collectionType := .auth
  fields := [⟨"name", .text, false, false, .object []⟩,
    ⟨"avatar", .file, false, false, .object [("maxSelect", .ofInt 1)]⟩]
  rules := .object [("createRule", .string ""), ("deleteRule", .string "id = @request.auth.id"),
    ("listRule", .string "id = @request.auth.id"), ("updateRule", .string "id = @request.auth.id"),
    ("viewRule", .string "id = @request.auth.id")]
  options := .object []
  adoptExistingTable := false

/-- Create the built-in `users` if it is missing. -/
def ensureUsers (ids : Collections.Ids) : Saga Db Error Bool := do
  let found ← read fun db => .ok (find db "users").isSome
  let taken ← read fun db => .ok (db.nameTaken "users")
  if found || taken then pure false
  else do
    let _ ← create sha server toQuery usersCollection ids
    pure true

/-- The ids a start draws. -/
structure StartIds where
  users : Collections.Ids
  adopted : Ids

/-- What a start does to the collections; existing tables are adopted where the environment asks for
it. -/
def startUp (adopting : Bool) (ids : StartIds) : Saga Db Error Unit := do
  let _ ← ensureUsers sha server toQuery ids.users
  onlyIf adopting (do
    let _ ← reflect server catalog ids.adopted
    pure ())

/-- A start that ends early, in its adoption or behind it. -/
def startUntil (adopting : Bool) (ids : StartIds) (registered secured : ℕ) : Saga Db Error Unit := do
  let _ ← ensureUsers sha server toQuery ids.users
  onlyIf adopting (reflectUntil server catalog ids.adopted registered secured)

/-! ### A server and its restarts -/

/-- A server: its database, and whether a start has completed. -/
structure Node where
  db : Db
  up : Bool

inductive Action where
  | start (adopting : Bool) (ids : StartIds)
  | startStops (adopting : Bool) (ids : StartIds) (registered secured : ℕ)
  | stop
  | create (input : CreateCollection) (ids : Collections.Ids)
  | update (key : String) (input : UpdateCollection) (ids : ℕ → String)
  | updateStops (key : String) (input : UpdateCollection) (ids : ℕ → String) (commits : ℕ)
  | delete (key : String) (dropData : Bool)

/-- A start completes or ends early, by a stop or at a statement that fails; a server that is up works
on its collections, and may stop at any point. A creation and a deletion have one transaction each. -/
inductive Step : Node → Action → Node → Prop
  | start {db after : Db} {adopting : Bool} {ids : StartIds}
      (h : startUp sha server toQuery catalog adopting ids db = (.ok (), after)) :
      Step ⟨db, false⟩ (.start adopting ids) ⟨after, true⟩
  | startStops {db after : Db} {adopting : Bool} {ids : StartIds} {registered secured : ℕ}
      (h : startUntil sha server toQuery catalog adopting ids registered secured db =
        (.ok (), after)) :
      Step ⟨db, false⟩ (.startStops adopting ids registered secured) ⟨after, false⟩
  | stop (db : Db) (up : Bool) : Step ⟨db, up⟩ .stop ⟨db, false⟩
  | create (db : Db) (input : CreateCollection) (ids : Collections.Ids) :
      Step ⟨db, true⟩ (.create input ids) ⟨(create sha server toQuery input ids db).2, true⟩
  | update (db : Db) (key : String) (input : UpdateCollection) (ids : ℕ → String) :
      Step ⟨db, true⟩ (.update key input ids)
        ⟨(update sha server toQuery key input ids db).2, true⟩
  | updateStops (db : Db) (key : String) (input : UpdateCollection) (ids : ℕ → String)
      (commits : ℕ) :
      Step ⟨db, true⟩ (.updateStops key input ids commits)
        ⟨(updateUntil sha server key input ids commits db).2, false⟩
  | delete (db : Db) (key : String) (dropData : Bool) :
      Step ⟨db, true⟩ (.delete key dropData) ⟨(delete server key dropData db).2, true⟩

/-! ### When no table is exposed -/

/-- The tables that some statements of the first part register. -/
def registeredBy (registrations : List Registration) : List String :=
  registrations.filterMap fun
    | .collection c => some c.name
    | .field _ => none

/-- **What an adoption that ends early has registered is under row-level security**: each table it
registered is one whose rules it applied, or had row-level security before. -/
def CoveredBy (db : Db) (ids : Ids) (registered secured : ℕ) : Prop :=
  let all := registrations catalog db ids
  ∀ name ∈ registeredBy (all.take registered),
    (all.length ≤ registered ∧ name ∈ ((adoptable catalog db).map Prod.fst).take secured) ∨
      db.Secure name

/-- No start ends early between the registration of an existing table and its rules. -/
def Covered (s : Node) : Action → Prop
  | .startStops true ids registered secured =>
    CoveredBy catalog (ensureUsers sha server toQuery ids.users s.db).2 ids.adopted registered secured
  | _ => True

end

/-! ### What a part of an adoption leaves -/

variable {sha : String → String} {server : Server}
  {toQuery : Json → List Collection → Result String} {catalog : Catalog} {db mid after : Db}

variable {u : Unit}

/-- A statement of the first part adds the collection it registers, and changes no table. -/
theorem registration_eq_ok {registration : Registration}
    (h : registration.run server db = .ok (u, after)) :
    after.tables = db.tables ∧ after.policies = db.policies ∧ ∀ name, after.Registered name →
      db.Registered name ∨ name ∈ registeredBy [registration] := by
  cases registration with
  | collection c =>
    rw [Registration.run, Tx.run_eq_ok] at h
    obtain ⟨_, rfl⟩ := Db.insertCollection_eq_some.mp h
    refine ⟨rfl, rfl, ?_⟩
    rintro name ⟨d, hd, htype, rfl⟩
    rcases List.mem_append.mp hd with hd | hd
    · exact .inl ⟨d, hd, htype, rfl⟩
    · obtain rfl := List.mem_singleton.mp hd
      exact .inr (List.mem_singleton.mpr rfl)
  | field f =>
    rw [Registration.run, insertField, Tx.run_eq_ok] at h
    have hlabels := Db.labels_insertField h
    obtain ⟨_, rfl⟩ := Db.insertField_eq_some.mp h
    refine ⟨rfl, rfl, fun name hregistered => .inl ?_⟩
    rw [Db.registered_iff] at hregistered ⊢
    rwa [hlabels] at hregistered

theorem register_eq_ok {registrations : List Registration}
    (h : register server registrations db = (.ok u, after)) :
    after.tables = db.tables ∧ after.policies = db.policies ∧ ∀ name, after.Registered name →
      db.Registered name ∨ name ∈ registeredBy registrations := by
  induction registrations generalizing db with
  | nil =>
    obtain rfl : db = after := congrArg Prod.snd h
    exact ⟨rfl, rfl, fun _ => .inl⟩
  | cons first rest ih =>
    obtain ⟨_, mid, hfirst, hrest⟩ := Saga.bind_eq_ok.mp h
    obtain ⟨htables, hpolicies, hadded⟩ := registration_eq_ok (transaction_eq_ok.mp hfirst)
    obtain ⟨htables', hpolicies', hadded'⟩ := ih hrest
    refine ⟨htables'.trans htables, hpolicies'.trans hpolicies, fun name hname => ?_⟩
    have happend : registeredBy (first :: rest) = registeredBy [first] ++ registeredBy rest :=
      List.filterMap_append (l := [first])
    rw [happend, List.mem_append]
    rcases hadded' name hname with hname | hname
    · exact (hadded name hname).imp_right .inl
    · exact .inr (.inr hname)

theorem secure_eq_ok {collections : List Collection} {name : String}
    (h : secure server collections name db = (.ok u, after)) :
    Db.Secures (fun other => other = name ∧ ∃ c ∈ collections, c.name = name) db after := by
  unfold secure at h
  cases hfind : collections.find? fun c => c.name = name with
  | none =>
    rw [hfind] at h
    obtain rfl : db = after := congrArg Prod.snd h
    refine (Db.Secures.refl db).mono fun other hother => ?_
    obtain ⟨-, c, hc, hname⟩ := hother
    exact absurd hname (by simpa using List.find?_eq_none.mp hfind c hc)
  | some collection =>
    have hname : collection.name = name := by simpa using List.find?_some hfind
    rw [hfind] at h
    obtain ⟨context, -, h⟩ := lift_bind_eq_ok.mp h
    have hsecures := applyPolicies_secures (transaction_eq_ok.mp h)
    refine Db.Secures.mono ⟨hsecures.labels, hsecures.tables, hsecures.keeps, hsecures.secure⟩
      fun other hother => hother.1.trans hname.symm

theorem forM_secure_eq_ok {collections : List Collection} {names : List String}
    (h : names.forM (secure server collections) db = (.ok u, after)) :
    Db.Secures (fun name => name ∈ names ∧ ∃ c ∈ collections, c.name = name) db after := by
  induction names generalizing db with
  | nil =>
    obtain rfl : db = after := congrArg Prod.snd h
    exact (Db.Secures.refl db).mono fun name hname => by simpa using hname.1
  | cons first rest ih =>
    obtain ⟨_, mid, hfirst, hrest⟩ := Saga.bind_eq_ok.mp h
    refine ((secure_eq_ok hfirst).trans (ih hrest)).mono fun name hname => ?_
    obtain ⟨hmem, hlisted⟩ := hname
    rcases List.mem_cons.mp hmem with rfl | hmem
    · exact .inl ⟨rfl, hlisted⟩
    · exact .inr ⟨hmem, hlisted⟩

/-- The rules of the tables that are registered are applied. -/
theorem secureAll_eq_ok {names : List String}
    (h : secureAll server names db = (.ok u, after)) :
    Db.Secures (fun name => name ∈ names ∧ db.Registered name) db after := by
  obtain ⟨collections, mid, hread, h⟩ := Saga.bind_eq_ok.mp h
  obtain ⟨hcollections, rfl⟩ := Prod.mk.inj hread
  refine (forM_secure_eq_ok h).mono fun name hname => ⟨hname.1, ?_⟩
  obtain ⟨-, c, hc, -, hsame⟩ := hname
  rw [← Except.ok.inj hcollections]
  exact ⟨_, mem_list.mpr ⟨c, hc, rfl⟩, hsame⟩

/-! ### What an adoption leaves -/

/-- What an adoption that ends early leaves is secured, where what it registered is covered. -/
theorem reflectUntil_secured {ids : Ids} {registered secured : ℕ} (hdb : db.Secured)
    (hcovered : CoveredBy catalog db ids registered secured)
    (h : reflectUntil server catalog ids registered secured db = (.ok u, after)) : after.Secured := by
  obtain ⟨_, _, hread, h⟩ := Saga.bind_eq_ok.mp h
  obtain ⟨hsame, rfl⟩ := Prod.mk.inj hread
  obtain rfl := Except.ok.inj hsame
  obtain ⟨_, mid, hregister, h⟩ := Saga.bind_eq_ok.mp h
  obtain ⟨htables, hpolicies, hadded⟩ := register_eq_ok hregister
  -- The second part, where the first was finished.
  have hrules : Db.Secures (fun name => ((registrations catalog db ids).length ≤ registered ∧
      name ∈ ((adoptable catalog db).map Prod.fst).take secured) ∧ mid.Registered name) mid after := by
    unfold onlyIf at h
    split_ifs at h with hall
    · exact (secureAll_eq_ok h).mono fun name hname => ⟨hname.1.2, hname.2⟩
    · obtain rfl : mid = after := congrArg Prod.snd h
      exact (Db.Secures.refl mid).mono fun name hname => hall (by simpa using hname.1.1)
  rw [Db.secured_iff] at hdb ⊢
  intro name hregistered htable
  have hmid : mid.Registered name := by
    rw [Db.registered_iff] at hregistered ⊢
    rwa [← hrules.labels]
  have hkeeps : db.Secure name → after.Secure name := by
    intro hsecure
    refine hrules.keeps name ?_
    rwa [Db.Secure, hpolicies]
  rcases hadded name hmid with hold | hnew
  · refine hkeeps (hdb name hold ?_)
    rwa [Db.IsTable, ← htables, ← hrules.tables]
  · rcases hcovered name hnew with hreached | hsecure
    · exact hrules.secure name ⟨hreached, hmid⟩
    · exact hkeeps hsecure

/-- What is registered is adoptable. -/
theorem mem_adoptable_of_registered {ids : Ids} {name : String}
    (h : name ∈ registeredBy (registrations catalog db ids)) :
    name ∈ (adoptable catalog db).map Prod.fst := by
  obtain ⟨registration, hmem, hname⟩ := List.mem_filterMap.mp h
  obtain ⟨⟨⟨table, columns⟩, index⟩, hentry, hmem⟩ := List.mem_flatMap.mp hmem
  have htable : table ∈ (adoptable catalog db).map Prod.fst :=
    List.mem_map_of_mem (List.fst_mem_of_mem_zipIdx hentry)
  rcases List.mem_cons.mp hmem with rfl | hmem
  · obtain rfl := Option.some.inj hname
    exact htable
  · obtain ⟨column, -, rfl⟩ := List.mem_map.mp hmem
    cases hname

/-- A whole adoption is one that ends behind its last statement. -/
theorem reflect_eq_ok {ids : Ids} {report : ReflectionReport}
    (h : reflect server catalog ids db = (.ok report, after)) :
    reflectUntil server catalog ids (registrations catalog db ids).length
      (adoptable catalog db).length db = (.ok (), after) := by
  obtain ⟨_, _, hread, h⟩ := Saga.bind_eq_ok.mp h
  obtain ⟨hsame, rfl⟩ := Prod.mk.inj hread
  obtain rfl := Except.ok.inj hsame
  obtain ⟨_, mid, hregister, h⟩ := Saga.bind_eq_ok.mp h
  obtain ⟨_, last, hrules, h⟩ := Saga.bind_eq_ok.mp h
  obtain rfl : last = after := congrArg Prod.snd h
  refine Saga.bind_eq_ok.mpr ⟨db, db, rfl, Saga.bind_eq_ok.mpr ⟨(), mid, ?_, ?_⟩⟩
  · rwa [List.take_length]
  · rw [onlyIf, if_pos (by simp), List.take_of_length_le (by simp)]
    unfold onlyIf at hrules
    split_ifs at hrules with hnone
    · exact hrules
    · have hempty : (adoptable catalog db).map Prod.fst = [] := by simpa using hnone
      obtain rfl : mid = last := congrArg Prod.snd hrules
      rw [hempty]
      rfl

/-- A whole adoption leaves every table secured. -/
theorem reflect_secured {ids : Ids} {report : ReflectionReport} (hdb : db.Secured)
    (h : reflect server catalog ids db = (.ok report, after)) : after.Secured := by
  refine reflectUntil_secured hdb (fun name hname => .inl ⟨le_rfl, ?_⟩) (reflect_eq_ok h)
  rw [List.take_length] at hname
  rw [List.take_of_length_le (by simp)]
  exact mem_adoptable_of_registered hname

/-! ### A start -/

theorem ensureUsers_secured {ids : Collections.Ids} {r : Result Bool} (hdb : db.Secured)
    (h : ensureUsers sha server toQuery ids db = (r, after)) : after.Secured := by
  have hafter : after = ((if (find db "users").isSome || db.nameTaken "users" then pure false
      else do
        let _ ← create sha server toQuery usersCollection ids
        pure true : Saga Db Error Bool) db).2 := (congrArg Prod.snd h).symm
  rw [hafter]
  split_ifs
  · exact hdb
  · rw [Quiet.snd_bind fun _ _ => rfl]
    exact create_secured hdb usersCollection ids

/-- **A start that completes leaves every table secured.** -/
theorem startUp_secured {adopting : Bool} {ids : StartIds} (hdb : db.Secured)
    (h : startUp sha server toQuery catalog adopting ids db = (.ok u, after)) : after.Secured := by
  obtain ⟨_, mid, husers, h⟩ := Saga.bind_eq_ok.mp h
  have hmid := ensureUsers_secured hdb husers
  cases adopting with
  | false =>
    obtain rfl : mid = after := congrArg Prod.snd h
    exact hmid
  | true =>
    obtain ⟨report, last, hreflect, h⟩ := Saga.bind_eq_ok.mp h
    obtain rfl : last = after := congrArg Prod.snd h
    exact reflect_secured hmid hreflect

/-- **A start that ends early leaves every table secured** where what it registered is covered. -/
theorem startUntil_secured {adopting : Bool} {ids : StartIds} {registered secured : ℕ}
    (hdb : db.Secured)
    (hcovered : Covered sha server toQuery catalog ⟨db, false⟩
      (.startStops adopting ids registered secured))
    (h : startUntil sha server toQuery catalog adopting ids registered secured db = (.ok u, after)) :
    after.Secured := by
  obtain ⟨_, mid, husers, h⟩ := Saga.bind_eq_ok.mp h
  have hmid := ensureUsers_secured hdb husers
  cases adopting with
  | false =>
    obtain rfl : mid = after := congrArg Prod.snd h
    exact hmid
  | true =>
    refine reflectUntil_secured hmid ?_ h
    simpa only [Covered, husers] using hcovered

/-- A failed transaction leaves the database. -/
theorem transaction_spares {work : Tx Db Error Unit} {e : Error}
    (h : Collections.transaction work db = (.error e, after)) : after = db :=
  (transaction_eq_error.mp h).2

theorem secure_spares {collections : List Collection} {name : String} {e : Error}
    (h : secure server collections name db = (.error e, after)) : after = db := by
  unfold secure at h
  cases hfind : collections.find? fun c => c.name = name with
  | none =>
    rw [hfind] at h
    cases congrArg Prod.fst h
  | some collection =>
    rw [hfind] at h
    rcases bind_eq_error.mp h with h | ⟨context, mid, hread, h⟩
    · exact (congrArg Prod.snd h).symm
    · obtain rfl : db = mid := congrArg Prod.snd hread
      exact transaction_spares h

/-- An adoption that fails is one that ends early. -/
theorem reflect_eq_error {ids : Ids} {e : Error}
    (h : reflect server catalog ids db = (.error e, after)) :
    ∃ registered secured,
      reflectUntil server catalog ids registered secured db = (.ok (), after) := by
  rcases bind_eq_error.mp h with h | ⟨_, _, hread, h⟩
  · cases congrArg Prod.fst h
  obtain ⟨hsame, rfl⟩ := Prod.mk.inj hread
  obtain rfl := Except.ok.inj hsame
  rcases bind_eq_error.mp h with h | ⟨_, mid, hregister, h⟩
  · -- A statement of the first part.
    obtain ⟨n, hn, htake⟩ := forM_eq_error (fun _ _ _ _ h => transaction_spares h) h
    refine ⟨n, 0, Saga.bind_eq_ok.mpr ⟨db, db, rfl, Saga.bind_eq_ok.mpr ⟨(), after, htake, ?_⟩⟩⟩
    rw [onlyIf, if_neg (by simpa using hn)]
    rfl
  rcases bind_eq_error.mp h with h | ⟨_, _, _, h⟩
  · -- The rules of a table.
    unfold onlyIf at h
    split_ifs at h
    · rcases bind_eq_error.mp h with h | ⟨collections, _, hread, h⟩
      · cases congrArg Prod.fst h
      obtain ⟨hcollections, rfl⟩ := Prod.mk.inj hread
      obtain rfl := Except.ok.inj hcollections
      obtain ⟨n, -, htake⟩ := forM_eq_error (fun _ _ _ _ h => secure_spares h) h
      refine ⟨(registrations catalog db ids).length, n, Saga.bind_eq_ok.mpr ⟨db, db, rfl,
        Saga.bind_eq_ok.mpr ⟨(), mid, by rwa [List.take_length], ?_⟩⟩⟩
      rw [onlyIf, if_pos (by simp)]
      exact Saga.bind_eq_ok.mpr ⟨_, mid, rfl, htake⟩
    · cases congrArg Prod.fst h
  · cases congrArg Prod.fst h

/-- **A start that fails is one that ends early**, where it got as far as the adoption. -/
theorem startUp_eq_error {adopting : Bool} {ids : StartIds} {e : Error}
    (h : startUp sha server toQuery catalog adopting ids db = (.error e, after)) :
    ensureUsers sha server toQuery ids.users db = (.error e, after) ∨
      ∃ registered secured,
        startUntil sha server toQuery catalog adopting ids registered secured db = (.ok (), after) := by
  refine (bind_eq_error.mp h).imp_right fun ⟨created, mid, husers, h⟩ => ?_
  cases adopting with
  | false => cases congrArg Prod.fst h
  | true =>
    rcases bind_eq_error.mp h with h | ⟨_, _, _, h⟩
    · obtain ⟨registered, secured, h⟩ := reflect_eq_error h
      exact ⟨registered, secured, Saga.bind_eq_ok.mpr ⟨created, mid, husers, h⟩⟩
    · cases congrArg Prod.fst h

/-! ### Runs -/

theorem step_secured {s t : Node} {a : Action} (hs : s.db.Secured)
    (h : When (Covered sha server toQuery catalog) (Step sha server toQuery catalog) s a t) :
    t.db.Secured := by
  obtain ⟨hcovered, h⟩ := h
  cases h with
  | start h => exact startUp_secured hs h
  | startStops h => exact startUntil_secured hs hcovered h
  | stop db up => exact hs
  | create db input ids => exact create_secured hs input ids
  | update db key input ids => exact update_secured key input ids hs
  | updateStops db key input ids commits => exact updateUntil_secured key input ids hs commits
  | delete db key dropData => exact delete_secured key hs dropData

/-- **Every table of a collection is under row-level security** in every run from a database without
collections in which no adoption ends with an exposed table. -/
theorem secured_of_run {db : Db} (hdb : db.collections = []) {actions : List Action} {s : Node}
    (hrun : Run (When (Covered sha server toQuery catalog) (Step sha server toQuery catalog))
      ⟨db, false⟩ actions s) : s.db.Secured := by
  refine hrun.invariant (I := fun s => s.db.Secured) (fun _ _ _ hs h => step_secured hs h) ?_
  intro c hc
  simp [hdb] at hc

/-! ### A database of another application -/

/-- The database of an application with a table of its own. -/
def legacy : Db :=
  { Db.empty with
    tables := fun name => if name = "users" then some (.table [⟨"id", .text, true, none, none⟩]) else none }

def legacyCatalog : Catalog where
  columns db := match db.tables "users" with
    | some (.table _) => [⟨"users", "id", "text", 25, true, true, true, 1, none⟩]
    | _ => []
  enums _ := []

def legacyIds : StartIds :=
  ⟨⟨"c", fun _ => "f", fun _ => "b"⟩, ⟨fun _ => "aaa", fun _ _ => "bbb"⟩⟩

abbrev legacyStep : Node → Action → Node → Prop :=
  Step noSha .lenient noBuilder legacyCatalog

/-- A start that adopts the table. -/
def adopted : Db :=
  (startUp noSha .lenient noBuilder legacyCatalog true legacyIds legacy).2

theorem startUp_legacy :
    startUp noSha .lenient noBuilder legacyCatalog true legacyIds legacy =
      (.ok (), adopted) :=
  apply_of_fst (by decide +kernel)

theorem secured_adopted : Db.Secured adopted := by
  have hrun : Run (When (Covered noSha .lenient noBuilder legacyCatalog)
      legacyStep) ⟨legacy, false⟩ [.start true legacyIds] ⟨adopted, true⟩ :=
    .cons ⟨trivial, .start startUp_legacy⟩ (.nil _)
  simpa only using secured_of_run rfl hrun

/-- The start is stopped behind the first statement of the adoption. -/
def stopped : Db :=
  (startUntil noSha .lenient noBuilder legacyCatalog true legacyIds 1 0
    legacy).2

/-- The next start. -/
def restarted : Db :=
  (startUp noSha .lenient noBuilder legacyCatalog true legacyIds stopped).2

/-- **A start that is stopped in its adoption leaves a table open**: the next one completes, and passes
over the table, which is a collection already. -/
theorem stopped_adoption_exposes :
    legacy.collections = [] ∧
      Run legacyStep ⟨legacy, false⟩ [.startStops true legacyIds 1 0, .start true legacyIds]
        ⟨restarted, true⟩ ∧
      ¬ restarted.Secured := by
  have hstopped : startUntil noSha .lenient noBuilder legacyCatalog true
      legacyIds 1 0 legacy = (.ok (), stopped) := apply_of_fst (by decide)
  have hrestarted : startUp noSha .lenient noBuilder legacyCatalog true
      legacyIds stopped = (.ok (), restarted) := apply_of_fst (by decide)
  refine ⟨rfl, .cons (.startStops hstopped) (.cons (.start hrestarted) (.nil _)), fun hsecured => ?_⟩
  have hregistered : restarted.Registered "users" :=
    Db.registered_iff.mpr ⟨"aaa", .base, by decide, by decide⟩
  have htable : restarted.IsTable "users" := ⟨[⟨"id", .text, true, none, none⟩], by decide⟩
  have hopen : (restarted.policies "users").enabled = false := by decide
  have hsecure := Db.secured_iff.mp hsecured "users" hregistered htable
  rw [Db.Secure, hopen] at hsecure
  cases hsecure

end LazyPock.Reflect
