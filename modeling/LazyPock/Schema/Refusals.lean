import LazyPock.Schema.Effects

/-!
# Updates that are refused

An update of a collection adds, changes and drops fields in transactions of their own before it
writes the rest in a last one. What a refused update has already committed stays. It leaves the
database as it was exactly where nothing was committed before the refusal: the update declares no
field and drops none, or its first declared field is the one that is refused.

## Main definitions

* `Collections.Unchanged`: the metadata, the schema and the policies are as before.
* `Collections.CommitsEarly`: an update commits before its last transaction.

## Main results

* `Collections.update_eq_error`: where an update can fail, and what it leaves.
* `Collections.refused_update_unchanged_iff`.
* `Collections.refused_update_adds_field`: a refused update that has added a field.
-/

namespace LazyPock.Collections

open Ddl Machine Db Saga

variable {sha : String → String} {server : Server} {toQuery : Json → List Collection → Result String}

/-- `_collections`, `_fields`, the tables, the indexes and the policies are exactly as before. -/
structure Unchanged (before after : Db) : Prop where
  collections : after.collections = before.collections
  touched : after.touched = before.touched
  tables : after.tables = before.tables
  indexes : after.indexes = before.indexes
  policies : after.policies = before.policies

theorem Unchanged.refl (db : Db) : Unchanged db db := ⟨rfl, rfl, rfl, rfl, rfl⟩

/-! ### The collections an update leaves -/

variable {db after : Db}

theorem exists_get_of_labels {key : String} {c : Collection}
    (hlabels : db.labels <+: after.labels) (h : get db key = .ok c) :
    ∃ d, get after key = .ok d := by
  obtain ⟨stored, hstored, rfl, hkey⟩ := exists_of_get h
  have hmem : (stored.id, stored.name, stored.collectionType) ∈ after.labels :=
    hlabels.subset (List.mem_map.mpr ⟨stored, hstored, rfl⟩)
  obtain ⟨d, hd, hlabel⟩ := List.mem_map.mp hmem
  simp only [Prod.mk.injEq] at hlabel
  exact exists_get ⟨d, hd, hlabel.1 ▸ hlabel.2.1 ▸ hkey⟩

/-- Statements on the schema and policies leave the collections alone. -/
theorem run_collections (statement : Statement) (e : Error) (L : List Collection) :
    Tx.Ensures (fun s : Db => s.collections = L) (run server statement e)
      fun _ s => s.collections = L := by
  intro s x t hs h
  rw [run, Tx.run_eq_ok] at h
  rw [(exec_metadata h).1, hs]

/-! ### Where an update fails -/

variable {existing : Collection} {input : UpdateCollection}

/-- A refused update of a view leaves the database as it was: it has one transaction. -/
theorem updateView_eq_error
    {e : Error} (hexisting : ∃ c ∈ db.collections, c.id = existing.id)
    (h : updateView server toQuery existing input db = (.error e, after)) : after = db := by
  unfold updateView at h
  obtain h | ⟨options, mid, hread, h⟩ := bind_eq_error.mp h
  · exact (congrArg Prod.snd h).symm
  obtain rfl : db = mid := congrArg Prod.snd hread
  obtain h | ⟨_, mid, hlift, h⟩ := bind_eq_error.mp h
  · exact (congrArg Prod.snd h).symm
  obtain rfl : db = mid := congrArg Prod.snd hlift
  obtain h | ⟨_, mid, hcommit, h⟩ := bind_eq_error.mp h
  · exact (transaction_eq_error.mp h).2
  -- The collection is still there after the transaction, so it is found.
  have hwrites := (updateViewTransaction_writes _ _ _).writes (transaction_eq_ok.mp hcommit)
  have hlabels := (dataWrite_tick db).labels.trans hwrites.labels_le
  obtain ⟨c, hc, hid⟩ := hexisting
  obtain ⟨found, hfound⟩ : ∃ found, get db existing.id = .ok found :=
    exists_get ⟨c, hc, .inl hid⟩
  obtain ⟨d, hd⟩ := exists_get_of_labels hlabels hfound
  have hok : (.ok d : Result Collection) = .error e := by
    rw [← hd]
    exact congrArg Prod.fst h
  cases hok

variable {ids : ℕ → String}

/-- A refused update of a table leaves what it had committed to its fields. -/
theorem update_eq_error {nameOrId : String} {e : Error} (hget : get db nameOrId = .ok existing)
    (htype : existing.collectionType ≠ .view)
    (h : update sha server toQuery nameOrId input ids db = (.error e, after)) :
    after = (reconcileFields sha server ids existing input db).2 := by
  unfold update at h
  have hread : read (fun db => get db nameOrId) db = (.ok existing, db) := by
    rw [read_apply, hget]
  rw [bind_of_ok hread, if_neg htype] at h
  obtain hfields | ⟨_, mid, hfields, h⟩ := bind_eq_error.mp h
  · rw [hfields]
  rw [hfields]
  obtain h | ⟨⟨read, all⟩, _, hread, h⟩ := bind_eq_error.mp h
  · exact (congrArg Prod.snd h).symm
  obtain rfl : mid = _ := congrArg Prod.snd hread
  obtain h | ⟨_, committed, hcommit, h⟩ := bind_eq_error.mp h
  · exact (transaction_eq_error.mp h).2
  -- The collection is still there after the last transaction, so it is found.
  obtain ⟨found, hfound, -⟩ := bind_eq_ok.mp (congrArg Prod.fst hread)
  obtain ⟨_, _, _, _, -, -, -, -, hwrites⟩ :=
    updateTransaction_writes (transaction_eq_ok.mp hcommit)
  have hlabels := (dataWrite_tick mid).labels.trans hwrites.labels_le
  obtain ⟨d, hd⟩ := exists_get_of_labels hlabels hfound
  have hok : (.ok d : Result Collection) = .error e := by
    rw [← hd]
    exact congrArg Prod.fst h
  cases hok

/-! ### What is committed -/

/-- A field that was added or updated was touched later than anything before. -/
theorem applyField_touches {field : CreateField} {id : String} {u : Unit}
    (h : applyField sha server existing field id db = (.ok u, after)) :
    ∃ fieldId, db.clock < after.touched fieldId := by
  unfold applyField at h
  cases hcurrent : existing.field field.name with
  | none =>
    simp only [hcurrent] at h
    obtain ⟨added, _, hadd, hpure⟩ := Saga.bind_eq_ok.mp h
    rw [pure_apply, Prod.mk.injEq] at hpure
    obtain ⟨-, rfl⟩ := hpure
    obtain ⟨⟨collection, new, statements⟩, _, hread, htx⟩ := Saga.bind_eq_ok.mp hadd
    obtain rfl : db = _ := congrArg Prod.snd hread
    obtain ⟨_, s, hcolumns, htx⟩ := Tx.bind_eq_ok.mp (transaction_eq_ok.mp htx)
    obtain ⟨_, t, hindex, htx⟩ := Tx.bind_eq_ok.mp htx
    obtain ⟨_, last, hinsert, htx⟩ := Tx.bind_eq_ok.mp htx
    obtain ⟨-, rfl⟩ : new = added ∧ last = _ := by simpa using htx
    rw [insertField, Tx.run_eq_ok] at hinsert
    have hs := ((runAll_writes (P := fun _ => True) (fun _ _ => trivial) _).writes hcolumns).clock_le
    have ht := ((createOwnIndex_writes _ _ _).writes hindex).clock_le
    obtain ⟨_, rfl⟩ := insertField_eq_some.mp hinsert
    refine ⟨new.id, ?_⟩
    simpa [touch] using lt_of_lt_of_le (Nat.lt_succ_self db.clock) (hs.trans ht)
  | some current =>
    simp only [hcurrent] at h
    obtain ⟨_, _, hlift, htx⟩ := Saga.bind_eq_ok.mp h
    obtain rfl : db = _ := congrArg Prod.snd hlift
    obtain ⟨_, s, hindex, htx⟩ := Tx.bind_eq_ok.mp (transaction_eq_ok.mp htx)
    obtain ⟨_, t, hdefault, htx⟩ := Tx.bind_eq_ok.mp htx
    obtain rfl : t.updateFieldRow current.id field.required field.unique field.options = after := by
      simpa using htx
    have hs := ((alterIndex_writes _ _ _).writes hindex).clock_le
    have ht := ((alterDefault_writes _ _ _).writes hdefault).clock_le
    refine ⟨current.id, ?_⟩
    simpa [updateFieldRow, touch, mapCollections] using lt_of_lt_of_le (Nat.lt_succ_self db.clock) (hs.trans ht)

/-- A row of `_fields` with this id is there. -/
def HasField (db : Db) (id : String) : Prop := ∃ c ∈ db.collections, ∃ f ∈ c.fields, f.id = id

theorem hasField_deleteFieldRow {id other : String} :
    HasField (db.deleteFieldRow id) other ↔ HasField db other ∧ other ≠ id := by
  simp only [HasField, deleteFieldRow, mapCollections, List.mem_map]
  constructor
  · rintro ⟨_, ⟨c, hc, rfl⟩, f, hf, rfl⟩
    obtain ⟨hf, hne⟩ := List.mem_filter.mp hf
    exact ⟨⟨c, hc, f, hf, rfl⟩, by simpa using hne⟩
  · rintro ⟨⟨c, hc, f, hf, rfl⟩, hne⟩
    exact ⟨_, ⟨c, hc, rfl⟩, f, List.mem_filter.mpr ⟨hf, by simpa using hne⟩, rfl⟩

/-- The row of a dropped field goes, and no row comes. -/
theorem dropField_hasField {table : String} {field : Field} {u : Unit}
    (h : dropField server table field db = .ok (u, after)) {id : String} :
    HasField after id ↔ HasField db id ∧ id ≠ field.id := by
  obtain ⟨statement, -, h⟩ := Tx.lift_bind_eq_ok.mp h
  obtain ⟨_, mid, hrun, h⟩ := Tx.bind_eq_ok.mp h
  obtain rfl : mid.deleteFieldRow field.id = after := by simpa using h
  have hmid : mid.collections = db.collections := run_collections _ _ db.collections _ _ _ rfl hrun
  rw [hasField_deleteFieldRow, HasField, HasField, hmid]

theorem dropFields_hasField {table : String} {fields : List Field} {u : Unit}
    (h : fields.forM (dropField server table) db = .ok (u, after)) {id : String} :
    HasField after id ↔ HasField db id ∧ id ∉ fields.map Field.id := by
  induction fields generalizing db with
  | nil =>
    obtain rfl : db = after := by simpa using h
    simp
  | cons field rest ih =>
    obtain ⟨_, mid, hfirst, hrest⟩ := Tx.bind_eq_ok.mp h
    rw [ih hrest, dropField_hasField hfirst, List.map_cons, List.mem_cons, not_or, and_assoc]

/-- Dropping the undeclared fields of a collection, where there are some, removes rows. -/
theorem dropUndeclaredFields_collections_ne
    {declared dropped : List String}
    (hstored : ∀ f ∈ existing.fields, HasField db f.id)
    (hsome : undeclaredFields existing declared ≠ [])
    (h : dropUndeclaredFields server existing declared db = (.ok dropped, after)) :
    after.collections ≠ db.collections := by
  intro hsame
  obtain ⟨field, hfield⟩ := List.exists_mem_of_ne_nil _ hsome
  have hexisting : field ∈ existing.fields :=
    List.mem_of_mem_filter (List.mem_of_mem_filter hfield)
  unfold dropUndeclaredFields at h
  simp only [hsome, ↓reduceIte] at h
  obtain ⟨_, mid, hdrops, hpure⟩ := Tx.bind_eq_ok.mp (transaction_eq_ok.mp h)
  obtain ⟨-, rfl⟩ : _ ∧ mid = after := by simpa using hpure
  have hgone : ¬ HasField mid field.id := (dropFields_hasField hdrops).not.mpr fun hkept =>
    hkept.2 (List.mem_map_of_mem hfield)
  refine hgone ?_
  rw [HasField, hsame]
  exact hstored field hexisting

/-! ### Refused updates -/

/-- An update commits something before its last transaction: its first declared field is accepted,
or it declares none and drops what it does not declare. -/
def CommitsEarly (sha : String → String) (server : Server) (existing : Collection)
    (input : UpdateCollection) (ids : ℕ → String) (db : Db) : Prop :=
  match input.fields with
  | none => False
  | some [] => input.deleteMissingFields = true ∧ undeclaredFields existing [] ≠ [] ∧
      isOk (dropUndeclaredFields server existing [] db).1 = true
  | some (field :: _) => isOk (applyField sha server existing field (ids 0) db).1 = true

/-- The fields of a table collection that is found are stored. -/
theorem hasField_of_get {key : String}
    (h : get db key = .ok existing) (htype : existing.collectionType ≠ .view) :
    ∀ f ∈ existing.fields, HasField db f.id := by
  obtain ⟨stored, hstored, rfl, -⟩ := exists_of_get h
  intro f hf
  exact ⟨stored, hstored, f, (mem_fields_loadFields (c := stored) htype).mp hf, rfl⟩

/-- A declared field that is refused leaves the database. -/
theorem applyField_eq_error {field : CreateField} {id : String} {e : Error}
    (h : applyField sha server existing field id db = (.error e, after)) : after = db := by
  unfold applyField at h
  cases hcurrent : existing.field field.name with
  | none =>
    simp only [hcurrent] at h
    obtain hadd | ⟨_, mid, -, hpure⟩ := bind_eq_error.mp h
    · obtain hread | ⟨_, mid, hread, htx⟩ := bind_eq_error.mp hadd
      · exact (congrArg Prod.snd hread).symm
      · obtain rfl : db = mid := congrArg Prod.snd hread
        exact (transaction_eq_error.mp htx).2
    · cases congrArg Prod.fst hpure
  | some current =>
    simp only [hcurrent] at h
    obtain hlift | ⟨_, mid, hlift, htx⟩ := bind_eq_error.mp h
    · exact (congrArg Prod.snd hlift).symm
    · obtain rfl : db = mid := congrArg Prod.snd hlift
      exact (transaction_eq_error.mp htx).2

theorem dropUndeclaredFields_eq_error {declared : List String} {e : Error}
    (h : dropUndeclaredFields server existing declared db = (.error e, after)) : after = db := by
  unfold dropUndeclaredFields at h
  split_ifs at h
  · cases congrArg Prod.fst h
  · exact (transaction_eq_error.mp h).2

/-- A declaration without fields changes something exactly where it drops some. -/
theorem reconcileFields_nil
    (db : Db) (hinput : input.fields = some []) :
    (reconcileFields sha server ids existing input db).2 =
      if input.deleteMissingFields then (dropUndeclaredFields server existing [] db).2 else db := by
  have hfields : applyFields sha server ids existing 0 (input.fields.getD []) db = (.ok (), db) := by
    rw [hinput]
    rfl
  rw [reconcileFields, bind_of_ok hfields]
  simp only [dropMissing, hinput, List.map_nil]
  split_ifs
  · cases hdrop : dropUndeclaredFields server existing [] db with
    | mk r after =>
      cases r with
      | error e => rw [bind_of_error hdrop]
      | ok dropped => rw [bind_of_ok hdrop, pure_apply]
  · rfl

/-- What an update does to the fields before its last transaction changes nothing where nothing is
committed. -/
theorem reconcileFields_of_not_commitsEarly (hearly : ¬ CommitsEarly sha server existing input ids db) :
    (reconcileFields sha server ids existing input db).2 = db := by
  unfold CommitsEarly at hearly
  split at hearly
  next hinput =>
    simp only [reconcileFields, dropMissing, hinput]
    rfl
  next hinput =>
    rw [reconcileFields_nil db hinput]
    split_ifs with hdelete
    · cases hdrop : dropUndeclaredFields server existing [] db with
      | mk r after =>
        cases r with
        | error e => exact dropUndeclaredFields_eq_error hdrop
        | ok dropped =>
          by_cases hnone : undeclaredFields existing [] = []
          · simp only [dropUndeclaredFields, hnone, ↓reduceIte] at hdrop
            exact (congrArg Prod.snd hdrop).symm
          · exact absurd ⟨hdelete, hnone, by rw [hdrop]; rfl⟩ hearly
    · rfl
  next field rest hinput =>
    cases hfirst : applyField sha server existing field (ids 0) db with
    | mk r after =>
      cases r with
      | ok u => exact absurd (by rw [hfirst]; rfl) hearly
      | error e =>
        obtain rfl := applyField_eq_error hfirst
        have hfields : applyFields sha server ids existing 0 (input.fields.getD []) after =
            (.error e, after) := by
          rw [hinput, Option.getD_some, applyFields, bind_of_error hfirst]
        rw [reconcileFields, bind_of_error hfields]

/-- What follows the first declared field. -/
theorem reconcileFields_rest_writes {mid : Db} {u : Unit} {field : CreateField} {rest : List CreateField}
    (hinput : input.fields = some (field :: rest))
    (hfirst : applyField sha server existing field (ids 0) db = (.ok u, mid)) :
    Writes server (fun _ => True) mid (reconcileFields sha server ids existing input db).2 := by
  have hfields : applyFields sha server ids existing 0 (input.fields.getD []) db =
      applyFields sha server ids existing 1 rest mid := by
    rw [hinput, Option.getD_some, applyFields, bind_of_ok hfirst]
  have hrest : Writes server (fun _ => True) mid
      (applyFields sha server ids existing 1 rest mid).2 :=
    ((applyFields_writes ids existing 1 rest).writes mid).mono fun _ _ => trivial
  rw [reconcileFields]
  cases hmid : applyFields sha server ids existing 1 rest mid with
  | mk r last =>
    rw [hmid] at hrest hfields
    cases r with
    | error e => rwa [bind_of_error hfields]
    | ok u =>
      rw [bind_of_ok hfields]
      exact hrest.trans (((dropMissing_writes existing input).writes last).mono fun _ _ => trivial)

/-- What was committed early stays. -/
theorem reconcileFields_of_commitsEarly (hstored : ∀ f ∈ existing.fields, HasField db f.id)
    (hearly : CommitsEarly sha server existing input ids db) :
    ¬ Unchanged db (reconcileFields sha server ids existing input db).2 := by
  unfold CommitsEarly at hearly
  intro hunchanged
  split at hearly
  next => exact hearly
  next hinput =>
    obtain ⟨hdelete, hsome, hok⟩ := hearly
    obtain ⟨dropped, hdropped⟩ := isOk_iff.mp hok
    rw [reconcileFields_nil db hinput, if_pos hdelete] at hunchanged
    exact dropUndeclaredFields_collections_ne hstored hsome (Prod.ext hdropped rfl)
      hunchanged.collections
  next field rest hinput =>
    obtain ⟨_, hok⟩ := isOk_iff.mp hearly
    have hfirst : applyField sha server existing field (ids 0) db = (.ok (), _) := Prod.ext hok rfl
    obtain ⟨id, hid⟩ := applyField_touches hfirst
    have hwrites : Writes server (fun _ => True) _
        (reconcileFields sha server ids existing input db).2 :=
      reconcileFields_rest_writes hinput hfirst
    have htouched := hid.trans_le (hwrites.touched_le id)
    rw [hunchanged.touched] at htouched
    exact absurd (db.timely id) htouched.not_ge

/-- **A refused update leaves everything as it was exactly where it had committed nothing.** -/
theorem refused_update_unchanged_iff {nameOrId : String} {input : UpdateCollection}
    {ids : ℕ → String} {db after : Db} {e : Error}
    (h : update sha server toQuery nameOrId input ids db = (.error e, after)) :
    Unchanged db after ↔ ∀ existing, get db nameOrId = .ok existing →
      existing.collectionType ≠ .view → ¬ CommitsEarly sha server existing input ids db := by
  constructor
  · intro hunchanged existing hget htype hearly
    rw [update_eq_error hget htype h] at hunchanged
    exact reconcileFields_of_commitsEarly (hasField_of_get hget htype) hearly hunchanged
  · intro hnone
    cases hget : get db nameOrId with
    | error e' =>
      have hread : read (fun db => get db nameOrId) db = (.error e', db) := by
        rw [read_apply, hget]
      rw [update, bind_of_error hread] at h
      obtain rfl : db = after := congrArg Prod.snd h
      exact .refl db
    | ok existing =>
      by_cases htype : existing.collectionType = .view
      · have hread : read (fun db => get db nameOrId) db = (.ok existing, db) := by
          rw [read_apply, hget]
        rw [update, bind_of_ok hread, if_pos htype] at h
        obtain ⟨stored, hstored, hexisting, -⟩ := exists_of_get hget
        obtain rfl := updateView_eq_error ⟨stored, hstored, hexisting ▸ rfl⟩ h
        exact .refl after
      · rw [update_eq_error hget htype h,
          reconcileFields_of_not_commitsEarly (hnone existing hget htype)]
        exact .refl db

/-! ### Two refused updates -/

/-- A collection with one text field. -/
def titledInput : CreateCollection where
  name := "posts"
  collectionType := .base
  fields := [⟨"title", .text, false, false, .object []⟩]
  rules := .object []
  options := .object []
  adoptExistingTable := false

def titledIds : Ids := ⟨"c0", fun n => "f" ++ toString n, fun n => "b" ++ toString n⟩

/-- The database after its creation. -/
def titledDb : Db := (create noSha .lenient noBuilder titledInput titledIds .empty).2

/-- A rule over a field the collection does not have. -/
def strayRule : Json := .object [("listRule", .string "missing = 1")]

/-- Fields along with a rule that cannot be compiled. -/
def strayUpdate (fields : List CreateField) : UpdateCollection := ⟨some strayRule, none, fields, false⟩

/-- An update of the collection `posts` of `titledDb`. -/
def updateTitled (input : UpdateCollection) : Result Collection × Db :=
  update noSha .lenient noBuilder "posts" input (fun _ => "g0") titledDb

theorem refused_update_of_no_field :
    isOk (updateTitled (strayUpdate [])).1 = false ∧
      Unchanged titledDb (updateTitled (strayUpdate [])).2 := by
  have hok : isOk (updateTitled (strayUpdate [])).1 = false := by decide
  refine ⟨hok, ?_⟩
  cases h : updateTitled (strayUpdate []) with
  | mk r after =>
    cases r with
    | ok c => simp [h] at hok
    | error e =>
      refine (refused_update_unchanged_iff h).mpr ?_
      rintro existing - - ⟨hdelete, -⟩
      cases hdelete

/-- A new field along with the rule. -/
def agedUpdate : UpdateCollection := strayUpdate [⟨"age", .number, false, false, .object []⟩]

/-- The rule is refused, and the field it came with is there. -/
theorem refused_update_adds_field :
    isOk (updateTitled agedUpdate).1 = false ∧ ¬ Unchanged titledDb (updateTitled agedUpdate).2 := by
  have hchanged : (updateTitled agedUpdate).2.collections ≠ titledDb.collections := by
    decide
  exact ⟨by decide, fun hunchanged => hchanged hunchanged.collections⟩

end LazyPock.Collections
