import LazyPock.Machine.Runs
import LazyPock.Schema.Effects

/-!
# The e-mail index of an auth collection

An auth collection is created with a case-insensitive unique index over its e-mail addresses. Its
name is the one the flags of a field `email` give to their own index, and an update of the field
`email` that turns its `unique` flag off drops it.

In a run of creations, updates and changes of fields, of any collections and with any outcome, the
index stays where no update changes the flags of a flagged field whose own index has that name, and
no declared index of the collection takes the name by its hash.

## Main definitions

* `Collections.Edit`, `Collections.Edit.apply`.
* `Collections.EmailIndexed`: the index is there with its definition.
* `Collections.LeavesEmail`: the condition on an edit.

## Main results

* `Collections.create_emailIndexed`: a creation makes the index.
* `Collections.emailIndexed_of_run`.
* `Collections.update_drops_emailIndex`: an update that drops it.
-/

namespace LazyPock.Collections

open Ddl Machine Db

variable (sha : String → String) (toQuery : Json → List Collection → Result String)

/-- An operation on collections. -/
inductive Edit where
  | create (input : CreateCollection) (ids : Ids)
  | update (nameOrId : String) (input : UpdateCollection) (ids : ℕ → String)
  | addField (nameOrId : String) (input : CreateField) (id : String)
  | deleteField (nameOrId fieldName : String)

/-- The database after an operation, accepted or refused. -/
def Edit.apply (server : Server) : Edit → Db → Db
  | .create input ids, db => (Collections.create sha server toQuery input ids db).2
  | .update nameOrId input ids, db =>
    (Collections.update sha server toQuery nameOrId input ids db).2
  | .addField nameOrId input id, db => (Collections.addField sha server nameOrId input id db).2
  | .deleteField nameOrId fieldName, db => (Collections.deleteField server nameOrId fieldName db).2

/-- One step of a run: an operation, with what the database decides while it runs. -/
def EditStep (db : Db) (action : Server × Edit) (after : Db) : Prop :=
  action.2.apply sha toQuery action.1 db = after

/-- The index over the e-mail addresses of an auth collection is there, as it was made. -/
def EmailIndexed (table : String) (db : Db) : Prop :=
  db.indexes (indexName sha table "email") = some (authEmailIndex table)

/-- A declared index of a table that has the name of the e-mail index by its hash. -/
def TakesEmailName (table raw : String) : Prop :=
  ∃ context spec, Indexes.parseOne table context raw = .ok spec ∧
    (Indexes.disambiguated sha (Indexes.named sha table spec)).name = indexName sha table "email"

/-- An update changes the flags of no flagged field whose own index has the name of the e-mail
index, and the declared indexes of the collection do not take that name. -/
def LeavesEmail (table : String) (db : Db) : Edit → Prop
  | .update nameOrId input _ => ∀ existing, get db nameOrId = .ok existing →
      existing.collectionType ≠ .view →
      (∀ field ∈ input.fields.getD [], ∀ current, existing.field field.name = some current →
        indexName sha existing.name field.name = indexName sha table "email" →
        (ownIndex existing.name current).isSome = true →
        ownIndex existing.name current =
          wantedIndex field.unique field.options existing.name field.name) ∧
      (existing.name = table ∨ existing.id = table →
        ∀ declared, declaredIndexes existing.options = .ok declared →
          ∀ raw ∈ declared, ¬ TakesEmailName sha table raw)
  | _ => True

/-! ### The index through one operation -/

section Step

variable {sha toQuery} {server : Server} {table : String} {db : Db}

/-- The e-mail index involves nothing but the e-mail address. -/
theorem uses_authEmailIndex {column : String} (h : (authEmailIndex table).uses column = true) :
    column = "email" := by
  have hquoted : quotedNames "\"email\" is not null" = ["email"] := by decide
  simpa [Index.uses, authEmailIndex, IndexKey.columnName, hquoted] using h

theorem DropsColumn.spares {other : String} {statement : Statement}
    (h : DropsColumn other statement) (name : String) :
    Spares name (authEmailIndex table) statement := by
  obtain ⟨column, -, hauth, rfl⟩ := h
  rintro ⟨-, huses⟩
  rw [uses_authEmailIndex huses] at hauth
  exact hauth (by decide)

/-- What the invariant of a run says: the index is there, and its table is an auth collection's. -/
structure Guarded (sha : String → String) (table : String) (db : Db) : Prop where
  indexed : EmailIndexed sha table db
  labelled : ∃ id, (id, table, .auth) ∈ db.labels

theorem Guarded.of_writes {P : Statement → Prop} {after : Db} (h : Guarded sha table db)
    (hwrites : Writes server P db after)
    (hspares : ∀ s, P s → Spares (indexName sha table "email") (authEmailIndex table) s) :
    Guarded sha table after where
  indexed := hwrites.indexes_eq hspares h.indexed
  labelled := by
    obtain ⟨id, hid⟩ := h.labelled
    exact ⟨id, hwrites.labels_le.subset hid⟩

/-- The collection of the table is an auth collection. -/
theorem Guarded.collectionType {existing : Collection} {key : String} (h : Guarded sha table db)
    (hget : get db key = .ok existing) (hname : existing.name = table) :
    existing.collectionType = .auth := by
  obtain ⟨id, hid⟩ := h.labelled
  obtain ⟨owner, howner, hlabel⟩ := List.mem_map.mp hid
  obtain ⟨stored, hstored, rfl, -⟩ := exists_of_get hget
  simp only [Prod.mk.injEq] at hlabel
  have hsame : stored = owner :=
    List.inj_on_of_nodup_map db.keyed.names hstored howner (hname.trans hlabel.2.1.symm)
  rw [collectionType_loadFields, hsame, hlabel.2.2]

/-- The last transaction of an update leaves the index: what it drops is on the table of the
collection, and of another name. -/
theorem Guarded.updateTransaction {id : String} {updated : Collection} {all : List Collection}
    {previous : Json} {fields : List CreateField} {start after : Db} {u : Unit}
    (h : Guarded sha table start)
    (htype : updated.name = table → updated.collectionType = .auth)
    (hdeclared : updated.name = table → ∀ declared, declaredIndexes previous = .ok declared →
      ∀ raw ∈ declared, ¬ TakesEmailName sha table raw)
    (htx : Collections.updateTransaction sha server id updated all previous fields start =
      .ok (u, after)) : Guarded sha table after := by
  obtain ⟨context, names, specs, old, -, -, -, hold, hwrites⟩ := updateTransaction_writes htx
  refine h.of_writes hwrites fun s hs => ?_
  rcases hs with hs | ⟨o, ho, -, hon, rfl⟩
  · exact hs.spares _ _
  · intro heq
    -- The index of that name is on `table`, so the collection is the one of `table`.
    rw [onTable, heq, h.indexed, Option.any_some, decide_eq_true_eq] at hon
    have htable : updated.name = table := hon.symm
    obtain ⟨declared, hnames, hresolved⟩ := bind_eq_ok.mp hold
    have hreserved : indexName sha table "email" ∈ Indexes.reservedNames sha updated := by
      simp [Indexes.reservedNames, CollectionType.isAuth, htype htable, htable]
    cases hparse : Indexes.parseAll sha updated declared context with
    | error e =>
      simp only [hparse, Except.ok.injEq] at hresolved
      simp [← hresolved] at ho
    | ok resolved =>
      simp only [hparse, Except.ok.injEq] at hresolved
      rw [← hresolved] at ho
      obtain ⟨raw, hraw, parsed, hparsed, hcollides⟩ :=
        Indexes.parseAll_name sha hreserved hparse ho heq
      rw [htable] at hparsed hcollides
      exact hdeclared htable declared hnames raw hraw ⟨context, parsed, hparsed, hcollides⟩

/-- A collection that is read again by its id has its name, or the id for a name. -/
theorem name_of_reread {key : String} {existing read : Collection} {mid : Db}
    (hlabels : db.labels <+: mid.labels) (hget : get db key = .ok existing)
    (hread : get mid existing.id = .ok read) :
    read.name = existing.name ∨ read.name = existing.id := by
  obtain ⟨stored, hstored, rfl, -⟩ := exists_of_get hget
  obtain ⟨found, hfound, rfl, hkey⟩ := exists_of_get hread
  refine hkey.imp_left fun hid => ?_
  obtain ⟨kept, hkept, hlabel⟩ :=
    List.mem_map.mp (hlabels.subset (List.mem_map.mpr ⟨stored, hstored, rfl⟩))
  simp only [Prod.mk.injEq] at hlabel
  have hsame : found = kept :=
    List.inj_on_of_nodup_map mid.keyed.ids hfound hkept (hid.trans hlabel.1.symm)
  rw [name_loadFields, name_loadFields, hsame, hlabel.2.1]

/-- An update that leaves the flags and the names alone keeps the index. -/
theorem Guarded.update {nameOrId : String} {input : UpdateCollection} {ids : ℕ → String}
    (h : Guarded sha table db) (hleaves : LeavesEmail sha table db (.update nameOrId input ids)) :
    Guarded sha table (Collections.update sha server toQuery nameOrId input ids db).2 := by
  cases hget : get db nameOrId with
  | error e =>
    have hread : Saga.read (fun db => get db nameOrId) db = (.error e, db) := by
      rw [Saga.read_apply, hget]
    rw [Collections.update, Saga.bind_of_error hread]
    exact h
  | ok existing =>
    by_cases htype : existing.collectionType = .view
    · have hread : Saga.read (fun db => get db nameOrId) db = (.ok existing, db) := by
        rw [Saga.read_apply, hget]
      rw [Collections.update, Saga.bind_of_ok hread, if_pos htype]
      exact h.of_writes ((updateView_writes existing input).writes db) fun s hs => hs.spares _ _
    obtain ⟨hflags, hdeclared⟩ := hleaves existing hget htype
    have hwrites : Writes server (fun s => Builds s ∨
        DropsFlagged sha existing (input.fields.getD []) s ∨ DropsColumn existing.name s) db
        (reconcileFields sha server ids existing input db).2 :=
      (reconcileFields_writes ids existing input).writes db
    have hmid : Guarded sha table (reconcileFields sha server ids existing input db).2 := by
      refine h.of_writes hwrites fun s hs => ?_
      rcases hs with hs | ⟨field, hfield, current, hcurrent, hsome, hne, rfl⟩ | hs
      · exact hs.spares _ _
      · exact fun hname => hne (hflags field hfield current hcurrent hname hsome)
      · exact hs.spares _
    obtain heq | ⟨mid, read, hreconciled, hread, htx⟩ := show
        (Collections.update sha server toQuery nameOrId input ids db).2 = _ ∨ _ from
      update_snd hget htype
    · rw [heq]
      exact hmid
    · rw [hreconciled] at hmid hwrites
      have htick : Writes server Builds mid mid.tick := .data (dataWrite_tick mid)
      have hstart : Guarded sha table mid.tick := hmid.of_writes htick fun s hs => hs.spares _ _
      have hauth : read.name = table → read.collectionType = .auth :=
        fun hname => hmid.collectionType hread hname
      refine Guarded.updateTransaction hstart ?_ ?_ htx
      · exact hauth
      · refine fun hname => hdeclared ?_
        exact (name_of_reread hwrites.labels_le hget hread).imp
          (fun hsame => hsame.symm.trans hname) fun hsame => hsame.symm.trans hname

/-- **One operation that leaves the flags and the names alone keeps the index.** -/
theorem Guarded.apply {edit : Edit} (h : Guarded sha table db)
    (hleaves : LeavesEmail sha table db edit) :
    Guarded sha table (edit.apply sha toQuery server db) := by
  cases edit with
  | create input ids =>
    exact h.of_writes ((create_writes input ids).writes db) fun s hs => hs.spares _ _
  | addField nameOrId input id =>
    exact h.of_writes ((addField_writes nameOrId input id).writes db) fun s hs => hs.spares _ _
  | deleteField nameOrId fieldName =>
    refine h.of_writes ((deleteField_writes nameOrId fieldName).writes db) fun s hs => ?_
    obtain ⟨other, hdrops⟩ := hs
    exact hdrops.spares _
  | update nameOrId input ids => exact h.update hleaves

end Step

/-! ### From the creation on -/

section Run

variable {sha toQuery} {server : Server} {db start : Db}

/-- **Creating an auth collection makes the index.** -/
theorem Guarded.of_create {input : CreateCollection} {ids : Ids} {created : Collection}
    (hauth : input.collectionType = .auth) (hnew : db.nameTaken input.name = false)
    (h : create sha server toQuery input ids db = (.ok created, start)) :
    Guarded sha input.name start := by
  obtain ⟨-, table, hprepared, htx⟩ := (create_eq_ok (by simp [hauth])).mp h
  obtain ⟨-, -, rfl, statement, -, rfl⟩ := (prepareTable_eq_ok hnew).mp hprepared
  obtain ⟨built, inserted, listed, completed, unique, indexed, context, -, hinserted, hlisted,
    hcompleted, hunique, -, hindexed, hlast, -⟩ := createTransaction_steps htx
  have hlabel : (ids.collection, input.name, .auth) ∈ inserted.labels := by
    obtain ⟨_, rfl⟩ := insertCollection_eq_some.mp hinserted
    simp [Db.labels, hauth]
  have hfields : Writes server Builds inserted completed :=
    ((createFields_writes _ _ _).writes hlisted).trans
      ((builtinFields_writes _ _).writes hcompleted)
  have hdefined : EmailIndexed sha input.name unique ∧ unique.labels = completed.labels := by
    simp only [hauth, CollectionType.isAuth, decide_true, Tx.onlyIf, ↓reduceIte, run,
      Tx.run_eq_ok] at hunique
    obtain ⟨-, hreplaces, -⟩ | ⟨-, columns, -, -, -, rfl⟩ := exec_createIndex.mp hunique
    · cases hreplaces
    · refine ⟨?_, labels_setIndex _ _ _⟩
      rw [EmailIndexed, indexes_setIndex, Function.update_self]
  have hunique' : Guarded sha input.name unique := by
    refine ⟨hdefined.1, ids.collection, ?_⟩
    rw [hdefined.2]
    exact hfields.labels_le.subset hlabel
  have hrest : Writes server Builds unique start :=
    ((applyDeclaredIndexes_none_writes _ _).writes hindexed).trans
      ((applyPolicies_writes _ _).writes hlast)
  exact hunique'.of_writes hrest fun s hs => hs.spares _ _

/-- **The e-mail index stays through every run.** An auth collection is created with a table of its
own; then operations on any collections follow, accepted or refused, that leave the flags and the
names of the index alone. -/
theorem emailIndexed_of_run {input : CreateCollection} {ids : Ids} {created : Collection}
    (hauth : input.collectionType = .auth) (hnew : db.nameTaken input.name = false)
    (hcreate : create sha server toQuery input ids db = (.ok created, start))
    {actions : List (Server × Edit)} {final : Db}
    (hrun : Run (When (fun db action => LeavesEmail sha input.name db action.2)
      (EditStep sha toQuery)) start actions final) :
    EmailIndexed sha input.name final := by
  have hguarded : Guarded sha input.name final := by
    refine hrun.invariant (I := Guarded sha input.name) ?_ (.of_create hauth hnew hcreate)
    rintro s ⟨server, edit⟩ t hs ⟨hleaves, rfl⟩
    exact hs.apply hleaves
  exact hguarded.indexed

end Run

/-! ### Two updates of the field `email` -/

/-- An auth collection without fields of its own. -/
def usersInput : CreateCollection where
  name := "users"
  collectionType := .auth
  fields := []
  rules := .object []
  options := .object []
  adoptExistingTable := false

def usersIds : Ids := ⟨"u0", fun n => "f" ++ toString n, fun n => "b" ++ toString n⟩

/-- Its creation in an empty database. -/
def createUsers : Result Collection × Db :=
  create noSha .lenient noBuilder usersInput usersIds .empty

/-- An update that declares the field `email`. -/
def declareEmail (unique : Bool) : Edit :=
  .update "users" ⟨none, none, some [⟨"email", .email, true, unique, .object []⟩], false⟩
    fun n => "g" ++ toString n

/-- The database after it. -/
def declaredEmail (unique : Bool) : Db :=
  (declareEmail unique).apply noSha noBuilder .lenient createUsers.2

theorem createUsers_fields : ∀ c ∈ createUsers.2.collections,
    declaredIndexes c.options = .ok [] ∧ c.collectionType ≠ .view ∧
      ∀ f ∈ c.fields, f.name = "email" →
        ownIndex c.name f = wantedIndex true (.object []) c.name "email" := by
  decide

theorem leavesEmail_declareEmail :
    LeavesEmail noSha "users" createUsers.2 (declareEmail true) := by
  rintro existing hget -
  obtain ⟨stored, hstored, rfl, -⟩ := exists_of_get hget
  obtain ⟨hdeclared, htype, hfields⟩ := createUsers_fields stored hstored
  refine ⟨fun field hfield current hcurrent _ _ => ?_, fun _ declared hnames raw hraw => ?_⟩
  · obtain rfl := List.mem_singleton.mp hfield
    have hmem := (mem_fields_loadFields htype).mp (List.mem_of_find?_eq_some hcurrent)
    have hname : current.name = "email" := by simpa using List.find?_some hcurrent
    simpa only [name_loadFields] using hfields current hmem hname
  · rw [show declared = [] from Except.ok.inj (hnames.symm.trans hdeclared)] at hraw
    exact absurd hraw List.not_mem_nil

theorem emailIndexed_declaredEmail :
    isOk createUsers.1 = true ∧ EmailIndexed noSha "users" (declaredEmail true) := by
  have hok : isOk createUsers.1 = true := by decide
  obtain ⟨created, hcreated⟩ := isOk_iff.mp hok
  have hcreate : createUsers = (.ok created, createUsers.2) := Prod.ext hcreated rfl
  have hrun : Run (When (fun db action => LeavesEmail noSha usersInput.name db action.2)
      (EditStep noSha noBuilder)) createUsers.2 [(.lenient, declareEmail true)]
      (declaredEmail true) :=
    .cons ⟨leavesEmail_declareEmail, rfl⟩ (.nil _)
  exact ⟨hok, emailIndexed_of_run rfl rfl hcreate hrun⟩

/-- Declaring the field `email` as not unique is accepted and drops the index. -/
theorem update_drops_emailIndex :
    isOk createUsers.1 = true ∧
      isOk (update noSha .lenient noBuilder "users"
        ⟨none, none, some [⟨"email", .email, true, false, .object []⟩], false⟩
        (fun n => "g" ++ toString n) createUsers.2).1 = true ∧
      ¬ EmailIndexed noSha "users" (declaredEmail false) := by
  refine ⟨by decide, by decide, ?_⟩
  have hnone : (declaredEmail false).indexes "idx_users_email" = none := by decide
  have hname : indexName noSha "users" "email" = "idx_users_email" := by
    decide
  simp [EmailIndexed, hname, hnone]

end LazyPock.Collections
